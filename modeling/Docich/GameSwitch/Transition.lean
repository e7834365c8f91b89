import Docich.GameSwitch.Rollback

/-!
# Switching and stopping

- `switchLocked`: validating, preparing, draining, quiescing, starting, probing, ready;
- `stopLocked`: validating, draining, quiescing, stopping, idle;
- `runOperationLocked`: either of them, rolled back when the request-wide deadline passes.

A stage answers a report when it ended the request, and what the next stage needs otherwise.
-/

namespace Docich.GameSwitch

open Durable

/-- The outcome of a stage: the report of a request that is over, or a value to go on with. -/
abbrev Stage (α : Type) := Except SwitchResult α

/-- Run the next stage unless the request is over. -/
def andThen {α β : Type} (x : M (Stage α)) (f : α → M (Stage β)) : M (Stage β) := do
  match ← x with
  | .error r => pure (.error r)
  | .ok a => f a

/-- The request is over. -/
def ends {α : Type} (x : M SwitchResult) : M (Stage α) := do pure (.error (← x))

/-! ## Switching: quiesce the old runtime -/

/-- What a failed boundary wait of a switch leads to. -/
def drainFailedLocked (cfg : Config) (a : RequestAcceptance) (target : Option GameName) (oldActive : Runtime)
    (adapter : Adapter) (e : Exc) : M SwitchResult :=
  match e.kind with
  | .roundBoundaryStateChanged => terminalOrStale a target "draining中にcanonical identityが変化しました"
  | .roundBoundaryUnsupported started =>
    roundBoundaryFailureLocked cfg a target oldActive adapter "round_boundary_unsupported" (safeDetail e) started
  | .readinessTimeout => roundBoundaryFailureLocked cfg a target oldActive adapter "timeout" (safeDetail e)
  | .deadlineExceeded => do
    if ← lockHeld then roundBoundaryFailureLocked cfg a target oldActive adapter "timeout" (safeDetail e)
    else pure (staleResult a target s!"draining後のlock再取得に失敗しました: {safeDetail e}")
  | _ => roundBoundaryFailureLocked cfg a target oldActive adapter "quiesce_failed" (safeDetail e)

/-- The old active runtime becomes the previous one. -/
def detachActive (oldActive : Runtime) (s : Canonical) : Canonical :=
  { s with active := none, previous := some oldActive }

/-- From `preparing` to `quiescing`: at once when the old runtime is dead or has no boundary, else after its drain. -/
def drainOldLocked (cfg : Config) (a : RequestAcceptance) (target : Option GameName) (oldActive : Runtime)
    (adapter : Adapter) (deadline : Ticks) (allowExtension : Bool) : M (Stage Ticks) := do
  let required ← roundBoundaryRequired adapter
  if ← runtimeConfirmedDead cfg oldActive.spec deadline then do
    let _ ← transition (only .preparing) .quiescing (detachActive oldActive)
    pure (.ok deadline)
  else if adapter.policy.requestRoundBoundary = .callable ∨ required = true then do
    let _ ← transition (only .preparing) .draining
    match ← attempt (awaitRoundBoundaryLocked cfg adapter oldActive a deadline allowExtension) with
    | .error e => ends (drainFailedLocked cfg a target oldActive adapter e)
    | .ok deadline => do
      let _ ← transition (only .draining) .quiescing (detachActive oldActive)
      pure (.ok deadline)
  else do
    let _ ← transition (only .preparing) .quiescing (detachActive oldActive)
    pure (.ok deadline)

/-- In `quiescing`: stop the old runtime and see it gone. -/
def stopOldLocked (cfg : Config) (a : RequestAcceptance) (target : Option GameName) (oldActive : Runtime)
    (deadline : Ticks) : M (Stage Unit) := do
  match ← attempt (stopAndCleanup cfg oldActive.spec deadline) with
  | .error e => ends (rollbackLocked cfg a target (failureCode e "quiesce_failed") (safeDetail e))
  | .ok () => do
    if ← waitStopped cfg oldActive.spec deadline then pure (.ok ())
    else ends (rollbackLocked cfg a target "quiesce_failed" "旧runtimeの停止を確認できませんでした")

/-- From `preparing` to `quiescing` with nothing of the old runtime left. -/
def quiesceOldLocked (cfg : Config) (a : RequestAcceptance) (target : Option GameName) (oldActive : Option Runtime)
    (deadline : Ticks) (allowExtension : Bool) : M (Stage Ticks) :=
  match oldActive with
  | none => do
    let _ ← transition (only .preparing) .quiescing
    pure (.ok deadline)
  | some oldActive => do
    match ← attempt (makeAdapter cfg oldActive.spec deadline) with
    | .error e => ends (rollbackLocked cfg a target "prepare_failed" s!"old runtime adapter: {safeDetail e}")
    | .ok adapter =>
      andThen (drainOldLocked cfg a target oldActive adapter deadline allowExtension) fun deadline =>
        andThen (stopOldLocked cfg a target oldActive deadline) fun _ => pure (.ok deadline)

/-! ## Switching: start the candidate -/

/-- In `starting` and `probing`: materialize the candidate, wait until it is ready, start its agent. -/
def startCandidateLocked (cfg : Config) (a : RequestAcceptance) (target : Option GameName) (candidate : Runtime)
    (adapter : Adapter) (deadline : Ticks) : M (Stage Unit) := do
  match ← attempt (do
    let timeout ← materializeTimeout cfg adapter
    callAdapter candidate.spec .materialize deadline timeout) with
  | .error e => ends (rollbackLocked cfg a target (failureCode e "start_failed") (safeDetail e))
  | .ok _ => do
    checkDeadline deadline
    let _ ← transition (only .starting) .probing
    match ← attempt (do
      callAdapter candidate.spec .readiness deadline (max (deadline - (← monotonic)) 0)) with
    | .error e => ends (rollbackLocked cfg a target (failureCode e) (safeDetail e))
    | .ok _ => do
      checkDeadline deadline
      match ← startAgent cfg candidate.spec adapter deadline with
      | .error e => ends (rollbackLocked cfg a target (failureCode e "agent_start_failed") (safeDetail e))
      | .ok _ => do
        checkDeadline deadline
        pure (.ok ())

/-- The result of a committed switch. -/
def commitResult (a : RequestAcceptance) (operation : Operation) (fromGame : Option GameName) (previous : Option Runtime)
    (candidate : Runtime) : Result where
  requestId := some a.requestId
  operation := operation
  status := .succeeded
  fromGame := fromGame
  toGame := some candidate.spec.game
  generation := some a.generation
  extra := .commit (previous.map Runtime.spec) candidate.spec.activeIdentity

/-- The previous runtime with the proof of the commit that replaced it. -/
def retired (a : RequestAcceptance) (operation : Operation) (candidate previous : Runtime) : Runtime :=
  { previous with
    retirement := some
      { requestId := a.requestId, operation := operation, source := previous.spec
        active := candidate.spec.activeIdentity } }

/-- The commit of a switch: one canonical write, then the receipt, then housekeeping. -/
def commitSwitchLocked (cfg : Config) (a : RequestAcceptance) (operation : Operation) (fromGame : Option GameName)
    (candidate : Runtime) (deadline : Ticks) : M SwitchResult := do
  let state ← load
  let lastResult := commitResult a operation fromGame state.previous candidate
  let _ ← transition (only .probing) .ready fun s =>
    { s.released with
      active := some candidate, candidate := none, previous := none
      retiring := (state.previous.map (retired a operation candidate)).toList ++ state.retiring
      lastResult := some lastResult }
  let receipt ← finishRequestLocked a.requestId .succeeded lastResult
  let _ ← call (.chore (.postCommit candidate.spec.game))
  let (pending, warnings) ← finalizeLocked cfg deadline []
  pure (resultFromReceipt a.requestId receipt warnings pending)

/-- `_candidate_spec`: the identity comes from the receipt, the lease is fresh. -/
def candidateSpec (a : RequestAcceptance) (target : GameName) : M RuntimeSpec := do
  let lease ← call .newLease
  pure { game := target, adapter := "", id := a.receipt.runtimeId, lease := lease }

/-- `validating` to `preparing`, and the preflight. -/
def prepareLocked (cfg : Config) (a : RequestAcceptance) (target : GameName) (deadline : Ticks)
    (deadlineAt : Instant) : M (Stage (RuntimeSpec × Adapter)) := do
  let spec ← candidateSpec a target
  match ← attempt (makeAdapter cfg spec deadline) with
  | .error e => ends (rollbackLocked cfg a (some target) (failureCode e "invalid_game") (safeDetail e))
  | .ok adapter => do
    let spec := { spec with adapter := adapter.name }
    checkDeadline deadline
    let _ ← transition (only .validating) .preparing fun s => { s with deadlineAt := some deadlineAt }
    match ← attempt (callAdapter spec .preflight deadline cfg.preflightTimeout) with
    | .error e => ends (rollbackLocked cfg a (some target) (failureCode e "prepare_failed") (safeDetail e))
    | .ok _ => do
      checkDeadline deadline
      pure (.ok (spec, adapter))

def switchLocked (cfg : Config) (a : RequestAcceptance) (operation : Operation) (target : GameName) (deadline : Ticks)
    (deadlineAt : Instant) (allowExtension : Bool) : M SwitchResult := do
  let state ← load
  match ← prepareLocked cfg a target deadline deadlineAt with
  | .error r => pure r
  | .ok (spec, adapter) => do
    match ← quiesceOldLocked cfg a (some target) state.active deadline allowExtension with
    | .error r => pure r
    | .ok deadline => do
      let now ← call .now
      let candidate : Runtime := { spec := spec, startedAt := now }
      let _ ← transition (only .quiescing) .starting fun s => { s with candidate := some candidate }
      match ← startCandidateLocked cfg a (some target) candidate adapter deadline with
      | .error r => pure r
      | .ok () => commitSwitchLocked cfg a operation state.activeGame candidate deadline

/-! ## Stopping -/

/-- What a failed boundary wait of a stop leads to. -/
def stopDrainFailedLocked (cfg : Config) (a : RequestAcceptance) (active : Runtime) (adapter : Adapter) (e : Exc) :
    M SwitchResult :=
  if e.kind = .roundBoundaryStateChanged then terminalOrStale a none "stop draining identity changed"
  else do
    if ← lockHeld then
      match e.kind with
      | .roundBoundaryUnsupported started =>
        roundBoundaryFailureLocked cfg a none active adapter "round_boundary_unsupported" (safeDetail e) started
      | .readinessTimeout | .deadlineExceeded =>
        roundBoundaryFailureLocked cfg a none active adapter "timeout" (safeDetail e)
      | _ => roundBoundaryFailureLocked cfg a none active adapter "quiesce_failed" (safeDetail e)
    else pure (staleResult a none "stop draining writer lock unavailable")

/-- From `validating` to `quiescing`: at once when the runtime is dead or its stop needs no boundary. -/
def drainStopLocked (cfg : Config) (a : RequestAcceptance) (active : Runtime) (adapter : Adapter) (deadline : Ticks)
    (deadlineAt : Instant) : M (Stage Ticks) := do
  if ← runtimeConfirmedDead cfg active.spec deadline then do
    let _ ← transition (only .validating) .quiescing
    pure (.ok deadline)
  else if adapter.policy.requiresStopBoundary then do
    let _ ← transition (only .validating) .draining fun s => { s with deadlineAt := some deadlineAt }
    match ← attempt (awaitRoundBoundaryLocked cfg adapter active a deadline) with
    | .error e => ends (stopDrainFailedLocked cfg a active adapter e)
    | .ok deadline => do
      let _ ← transition (only .draining) .quiescing
      pure (.ok deadline)
  else do
    let _ ← transition (only .validating) .quiescing
    pure (.ok deadline)

/-- From `quiescing` to `stopping` with the runtime seen gone. -/
def stopActiveLocked (cfg : Config) (a : RequestAcceptance) (active : Runtime) (deadline : Ticks) :
    M (Stage Ticks) := do
  match ← attempt (callAdapter active.spec .stopAgent deadline cfg.stopAgentTimeout) with
  | .error e => ends (failLocked cfg a deadline (failureCode e "quiesce_failed") (safeDetail e) [] false false true)
  | .ok _ => do
    let _ ← transition (only .quiescing) .stopping
    match ← attempt (callAdapter active.spec .cleanup deadline cfg.cleanupTimeout) with
    | .error e => ends (failLocked cfg a deadline (failureCode e "quiesce_failed") (safeDetail e) [] false false true)
    | .ok _ => do
      if ← waitStopped cfg active.spec deadline then pure (.ok deadline)
      else
        ends (failLocked cfg a deadline "quiesce_failed" "旧runtimeの停止を確認できませんでした" [] false false true)

/-- From `validating` to `stopping`. -/
def quiesceStopLocked (cfg : Config) (a : RequestAcceptance) (active : Option Runtime) (deadline : Ticks)
    (deadlineAt : Instant) : M (Stage Ticks) :=
  match active with
  | none => do
    let _ ← transition (only .validating) .quiescing
    let _ ← transition (only .quiescing) .stopping
    pure (.ok deadline)
  | some active => do
    match ← attempt (makeAdapter cfg active.spec deadline) with
    | .error e =>
      ends (failLocked cfg a deadline "quiesce_failed" s!"old runtime adapter: {safeDetail e}" [] false false true)
    | .ok adapter =>
      andThen (drainStopLocked cfg a active adapter deadline deadlineAt) (stopActiveLocked cfg a active)

def stopResult (id : Option RequestId) (active : Option Runtime) (proven : Bool) : Result where
  requestId := id
  operation := .stop
  status := .succeeded
  fromGame := active.map fun r => r.spec.game
  generation := active.map Runtime.generation
  extra := if proven then active.elim .none fun r => .stopped r.spec else .none

/-- Nothing runs any more, and no request owns the state. -/
def emptied (lastResult : Result) (s : Canonical) : Canonical :=
  { s.released with active := none, candidate := none, previous := none, lastResult := some lastResult }

def stopLocked (cfg : Config) (a : RequestAcceptance) (deadline : Ticks) (deadlineAt : Instant) : M SwitchResult := do
  let state ← load
  match ← quiesceStopLocked cfg a state.active deadline deadlineAt with
  | .error r => pure r
  | .ok deadline => do
    let lastResult := stopResult (some a.requestId) state.active true
    let _ ← transition (only .stopping) .idle (emptied lastResult)
    let receipt ← finishRequestLocked a.requestId .succeeded lastResult
    let (pending, warnings) ← finalizeLocked cfg deadline []
    pure (resultFromReceipt a.requestId receipt warnings pending)

/-! ## Either of them -/

/-- `_run_operation_locked`. A rotation gets its target from the rotation list. -/
def runOperationLocked (cfg : Config) (a : RequestAcceptance) (operation : Operation) (target : Option GameName)
    (deadline : Ticks) (deadlineAt : Instant) (allowExtension : Bool) : M SwitchResult := do
  match ← attempt (match operation, target with
    | .stop, _ => stopLocked cfg a deadline deadlineAt
    | .recover, _ | _, none => raise .invalidTransition "coordinatorは このoperationを実行できません"
    | operation, some target => switchLocked cfg a operation target deadline deadlineAt allowExtension) with
  | .ok r => pure r
  | .error e =>
    if e.kind = .deadlineExceeded then rollbackLocked cfg a target "timeout" (safeDetail e)
    else throw e

end Docich.GameSwitch
