import Docich.GameSwitch.Transition

/-!
# Recovery

- `reconcileDanglingReceiptLocked`: finish the receipt that the canonical `last_result` names;
- `recoverDrainingLocked`: end an expired drain, keeping the runtime;
- `recoverFromPreviousLocked`, `recoverStopLocked`, `recoverAdoptFailedCandidateLocked`: out of `failed`;
- `recoverLocked`: recovery from every phase.
-/

namespace Docich.GameSwitch

open Durable

/-! ## Receipts left behind -/

def finishRecoveringReceipt (id : RequestId) (status : TerminalStatus) (result : Result) : M Unit := do
  match ← call (.loadReceipt id) with
  | none => pure ()
  | some receipt =>
    if receipt.status.isTerminal then pure ()
    else do
      let _ ← finishRequestLocked id status result
      pure ()

/-- The same, for the request that owns the state, if there is one. -/
def finishRecoveringOwner (id : Option RequestId) (result : Result) : M Unit :=
  match id with
  | some id => finishRecoveringReceipt id .succeeded result
  | none => pure ()

/-- A result that a retirement proof stands for: `source_runtime` is there. -/
def Result.retires (r : Result) : Bool :=
  match r.extra with
  | .commit (some _) _ => true
  | _ => false

def reconcileDanglingReceiptLocked : M Unit := do
  let state ← load
  match state.lastResult with
  | none => pure ()
  | some lastResult =>
    if lastResult.retires then pure ()
    else
      match lastResult.requestId with
      | none => pure ()
      | some id => finishRecoveringReceipt id lastResult.status lastResult

/-! ## Reports of a recovery -/

/-- The anonymous report of a recovery. -/
def recoverReport (status : SwitchStatus) (errorCode detail : Option String) (warnings : List String)
    (cleanupPending : Bool) (active : Option Runtime := none) : SwitchResult where
  requestId := none
  operation := .op .recover
  status := status
  fromGame := active.map fun r => r.spec.game
  generation := active.map Runtime.generation
  errorCode := errorCode
  detail := detail
  warnings := warnings
  cleanupPending := cleanupPending

/-- The anonymous `last_result` of a recovery. -/
def recoverResult (status : TerminalStatus) (fromGame : Option GameName) (generation : Option Nat)
    (errorCode detail : Option String) : Result where
  requestId := none
  operation := .recover
  status := status
  fromGame := fromGame
  generation := generation
  errorCode := errorCode
  detail := detail

/-- `_recover_fail_locked`: the identity of the failure being recovered is kept. -/
def recoverFailLocked (state : Canonical) (warnings : List String) (detail errorCode : String) : M SwitchResult := do
  let current ← load
  let pending := current.candidate.isSome || !current.retiring.isEmpty
  let prior := state.lastResult
  let lastResult : Result :=
    { requestId := state.requestId.or (prior.bind Result.requestId)
      operation := prior.elim .recover Result.operation
      status := .failed
      fromGame := prior.bind Result.fromGame
      toGame := prior.bind Result.toGame
      generation := prior.bind Result.generation
      errorCode := some errorCode
      detail := some detail
      cleanupPending := if pending then some true else none }
  match ← attempt (transition (only state.phase) .failed fun s => { s with lastResult := some lastResult }) with
  | .error e =>
    if e.kind = .invalidTransition then
      pure (recoverReport .failed (some errorCode) (some detail) warnings pending)
    else throw e
  | .ok _ => pure (recoverReport .failed (some errorCode) (some detail) warnings pending)

/-! ## Draining -/

/-- The report of a recovery about the drain it found. -/
def drainReport (id : RequestId) (operation : Operation) (status : SwitchStatus) (active : Runtime) (receipt : Receipt)
    (errorCode detail : String) : SwitchResult where
  requestId := some id
  operation := .op operation
  status := status
  target := receipt.target
  fromGame := some active.spec.game
  toGame := receipt.target
  generation := some receipt.generation
  errorCode := some errorCode
  detail := some detail
  receipt := some receipt

/-- The result of a drain whose deadline passed. -/
def drainExpiredResult (id : RequestId) (receipt : Receipt) (active : Runtime) : Result where
  requestId := some id
  operation := receipt.operation
  status := .failed
  fromGame := some active.spec.game
  toGame := receipt.target
  generation := some receipt.generation
  errorCode := some "timeout"
  detail := some "試合終了境界のdeadlineが経過したため待機を取り消しました"
  extra := .boundaryFailed (some active) true

/-- Cancel the boundary request of an expired drain, or raise. -/
def cancelExpiredDrain (cfg : Config) (active : Runtime) (id : RequestId) (deadline : Ticks) : M Unit := do
  let adapter ← makeAdapter cfg active.spec deadline
  let (ok, detail) ← cancelRoundBoundaryLocked cfg active.spec adapter id
  require (ok = true) .roundBoundary
    (detail.getD "adapterが期限切れdrainingのcancelをacknowledgeしませんでした")

def recoverDrainingLocked (cfg : Config) (state : Canonical) (deadline : Ticks) : M SwitchResult :=
  match state.requestId, state.active with
  | some id, some active => do
    match ← call (.loadReceipt id) with
    | none => raise .stateCorrupt "draining requestに対応するreceiptがありません"
    | some receipt => do
      let operation := state.operation.getD receipt.operation
      if ¬ (← wallDeadlineExpired state.deadlineAt) then
        pure (drainReport id operation .busy active receipt "busy"
          "試合終了境界の待機中です。deadline後に明示recoverしてください")
      else
        match ← attempt (cancelExpiredDrain cfg active id deadline) with
        | .error e =>
          pure (drainReport id operation .failed active receipt "recovery_required"
            s!"期限切れdrainingを安全に解除できません: {safeDetail e}")
        | .ok () => do
          let lastResult := drainExpiredResult id receipt active
          let current ← load
          when (current.phase = .draining) do
            let _ ← transition (only .draining) .ready fun s =>
              { s.released with
                active := some active, candidate := none, previous := none
                lastResult := some lastResult }
            pure ()
          let saved ← finishRequestLocked id .failed lastResult
          pure (resultFromReceipt id saved)
  | _, _ => raise .stateCorrupt "draining stateにrequest_idまたはactiveがありません"

/-! ## Out of `failed` -/

def cleanupLeftoversLocked (cfg : Config) (state : Canonical) (deadline : Ticks) (warnings : List String) :
    M (Bool × List String) := do
  match state.candidate with
  | none => retryRetiringLocked cfg deadline warnings
  | some candidate => do
    let tornDown ← tearDownRecorded cfg candidate.spec deadline
    let current ← load
    let _ ← transition (only current.phase) current.phase
      (if tornDown then dropCandidate else parkCandidate candidate)
    let warnings := if tornDown then warnings else warnings ++ ["candidateの停止を確認できませんでした"]
    let (pending, warnings) ← retryRetiringLocked cfg deadline warnings
    pure (pending || !tornDown, warnings)

def recoverFromPreviousLocked (cfg : Config) (previous : Runtime) (warnings : List String) : M SwitchResult := do
  let state ← load
  match state.lastResult with
  | none => raise .stateCorrupt "failed phaseの復旧に必要なlast_resultがありません"
  | some lastResult =>
    match lastResult.generation with
    | none => raise .stateCorrupt "failed phaseの復旧に必要なgenerationがありません"
    | some generation => do
      let deadline := (← monotonic) + cfg.rollbackTimeout
      let outcome ← restorePreviousLocked cfg
        { requestId := lastResult.requestId, operation := lastResult.operation, target := lastResult.toGame
          generation := generation, finishReceipt := false
          errorCode := some (lastResult.errorCode.getD "recovery")
          detail := some (lastResult.detail.getD "crash後にrecoveryで復旧しました") }
        previous deadline warnings
      match outcome.restored with
      | none =>
        recoverFailLocked state outcome.warnings "previous runtimeの復旧に失敗しました" "rollback_failed"
      | some restored => do
        reconcileDanglingReceiptLocked
        let current ← load
        let pending := current.candidate.isSome || !current.retiring.isEmpty || outcome.pending
        match restored with
        | .receipt id receipt => pure (resultFromReceipt id receipt outcome.warnings pending)
        | .result r => pure (resultFromLastResult r outcome.warnings pending)

/-- Make the adapter, stop agent and runtime, see it gone: `none`, or why not. -/
def finishStop (cfg : Config) (active : Runtime) (deadline : Ticks) (factoryFailed : String) :
    M (Option (String × String)) := do
  match ← attempt (makeAdapter cfg active.spec deadline) with
  | .error e => pure (some (factoryFailed, safeDetail e))
  | .ok _ =>
    match ← attempt (stopAndCleanup cfg active.spec deadline) with
    | .error e => pure (some ("stop再開に失敗しました", safeDetail e))
    | .ok () => do
      if ← waitStopped cfg active.spec deadline then pure none
      else
        pure (some ("旧runtimeの停止を確認できません (runtimeを保持してfailedに留めます)", "quiesce_failed"))

def recoverStopLocked (cfg : Config) (active : Runtime) (deadline : Ticks) (warnings : List String) (pending : Bool) :
    M SwitchResult := do
  match ← finishStop cfg active deadline "stop再開に失敗しました" with
  | some (detail, errorCode) => do
    let state ← load
    recoverFailLocked state warnings detail errorCode
  | none => do
    let lastResult := recoverResult .succeeded (some active.spec.game) (some active.generation) none none
    let _ ← transition (only .failed) .idle (emptied lastResult)
    let warnings ← mirrorWarning warnings none
    reconcileDanglingReceiptLocked
    pure (recoverReport .succeeded none (some "停止を完了しました") warnings pending (some active))

/-- A previous runtime whose game is over for good may be given up, once it is gone. -/
def releaseTerminalPrevious (cfg : Config) (previous : Runtime) (deadline : Ticks) : M (Option ActiveIdentity) := do
  let adapter ← makeAdapter cfg previous.spec deadline
  if adapter.policy.canReleaseTerminalPrevious then
    if ← callAdapter previous.spec .terminalPrevious deadline cfg.probeTimeout then do
      let tornDown ← teardownRuntime cfg previous.spec deadline
      -- The source raises a class it does not import here.
      require (tornDown = true) .other "name 'AdapterError' is not defined"
      pure (some previous.spec.activeIdentity)
    else pure none
  else pure none

/-- The previous runtime that `can_release_terminal_previous` may give up, if there is one. -/
def terminalPrevious (state : Canonical) (pending : Bool) : Option Runtime :=
  match state.previous with
  | some previous =>
    if state.active = none ∧ pending = false ∧ state.candidate = none ∧ state.retiring = [] ∧
        previous.spec.adapter = "retroarch" ∧ previous.spec.game = "hanjuku-hero" then some previous
    else none
  | none => none

/-- Give up the previous runtime where that is possible: its identity, or why it could not be torn down. -/
def releasePrevious (cfg : Config) (state : Canonical) (pending : Bool) (deadline : Ticks) :
    M (Except Exc (Option ActiveIdentity)) :=
  match terminalPrevious state pending with
  | none => pure (.ok none)
  | some previous => attempt (releaseTerminalPrevious cfg previous deadline)

/-- May `previous` be abandoned on request? Only the program view. -/
def abandons (state : Canonical) (abandonProgramView : Bool) : Bool :=
  abandonProgramView && state.previous.any (fun r => r.spec.adapter = "program") && state.active.isNone

/-- From `failed` to `idle` with nothing to restore. -/
def leaveFailedLocked (state : Canonical) (released : Option ActiveIdentity) (warnings : List String)
    (pending : Bool) : M SwitchResult := do
  let lastResult := { recoverResult .succeeded none none none (some "failed状態から復旧しました") with
    extra := released.elim .none fun r => .released r (state.lastResult.bind Result.requestId) }
  let _ ← transition (only .failed) .idle fun s =>
    { s.released with candidate := none, previous := none, lastResult := some lastResult }
  let warnings ← repairMirror warnings
  reconcileDanglingReceiptLocked
  pure (recoverReport .succeeded none (some "failed状態から復旧しました") warnings pending)

/-- The branch of `_recover_locked` for `failed`. -/
def recoverFailedLocked (cfg : Config) (deadline : Ticks) (abandonProgramView : Bool) : M SwitchResult := do
  let state ← load
  let (pending, warnings) ← cleanupLeftoversLocked cfg state deadline []
  let state ← load
  match ← releasePrevious cfg state pending deadline with
  | .error e => recoverFailLocked state warnings (safeDetail e) "quiesce_failed"
  | .ok released =>
    match (if abandons state abandonProgramView || released.isSome then none else state.previous) with
    | some previous => recoverFromPreviousLocked cfg previous warnings
    | none =>
      match state.active with
      | some active => recoverStopLocked cfg active deadline warnings pending
      | none => leaveFailedLocked state released warnings pending

/-- The shape of `failed` in which a candidate may be adopted. -/
def adoptable (state : Canonical) : Option (Runtime × Runtime) :=
  match state.previous, state.retiring with
  | some previous, [failed] =>
    if state.phase = .failed ∧ state.active = none ∧ state.candidate = none ∧
        failed.cleanupRole = some .failedCandidate then some (previous, failed)
    else none
  | _, _ => none

def adoptRefused (warnings : List String) (detail : String) : SwitchResult :=
  recoverReport .failed (some "recovery_required") (some detail) warnings true

def recoverAdoptFailedCandidateLocked (cfg : Config) (deadline : Ticks) (warnings : List String) :
    M SwitchResult := do
  let state ← load
  match adoptable state with
  | none => pure (adoptRefused warnings "採用できるfailed candidateの形ではありません")
  | some (previous, failed) => do
    match ← attempt (makeAdapter cfg failed.spec deadline) with
    | .error e => pure (adoptRefused warnings s!"failed candidate adapter生成失敗: {safeDetail e}")
    | .ok adapter =>
      if ¬ adapter.policy.adoptFailedCandidate then
        pure (adoptRefused warnings "このadapterはfailed candidateの採用に対応していません")
      else do
        match ← attempt (do
          callAdapter failed.spec .adoptFailedCandidate deadline (max (deadline - (← monotonic)) 0)) with
        | .error e => pure (adoptRefused warnings s!"failed candidateの採用証明に失敗しました: {safeDetail e}")
        | .ok false => pure (adoptRefused warnings "failed candidateが稼働中の同一candidateであることを証明できません")
        | .ok true => do
          let current ← load
          if current ≠ state then
            pure (adoptRefused warnings "採用の証明中にcanonical stateが変化しました")
          else do
            let active := { failed with cleanupRole := none }
            let lastResult : Result :=
              { recoverResult .succeeded (some previous.spec.game) (some active.generation) none
                  (some "failed candidateを稼働中のまま採用しました") with
                toGame := some active.spec.game
                extra := .adopted active.spec.activeIdentity }
            let _ ← transition (only .failed) .ready fun s =>
              { s.released with
                active := some active, candidate := none, previous := none, retiring := [previous]
                lastResult := some lastResult }
            let _ ← call (.chore (.postCommit active.spec.game))
            let (pending, warnings) ← finalizeLocked cfg deadline warnings
            pure { recoverReport .succeeded none lastResult.detail warnings pending with
              fromGame := some previous.spec.game, toGame := some active.spec.game
              generation := some active.generation }

/-! ## Out of the other phases -/

/-- The branch of `_recover_locked` for `idle`. -/
def recoverIdleLocked (cfg : Config) (deadline : Ticks) : M SwitchResult := do
  let warnings ← repairMirror []
  reconcileDanglingReceiptLocked
  let (pending, warnings) ← retryRetiringLocked cfg deadline warnings
  pure (recoverReport .succeeded none (some "recovery は不要でした") warnings pending)

/-- The active runtime is gone: tear down the rest of it, and fail. -/
def loseActiveLocked (cfg : Config) (state : Canonical) (active : Runtime) (deadline : Ticks) : M SwitchResult := do
  let tornDown ← teardownRuntime cfg active.spec deadline
  let pending := !tornDown || !state.retiring.isEmpty
  let lastResult := { recoverResult .failed (some active.spec.game) (some active.generation) (some "start_failed")
      (some "active runtimeが失われています") with cleanupPending := if pending then some true else none }
  let _ ← transition (only .ready) .failed fun s =>
    { s with
      active := none, candidate := state.candidate, previous := state.previous
      retiring := if tornDown then s.retiring else active :: state.retiring
      lastResult := some lastResult }
  let warnings ← mirrorWarning [] none
  pure (recoverReport .failed (some "start_failed") (some "active runtimeが失われています") warnings pending
    (some active))

/-- Is the active runtime alive? `none` when the probe failed, with a warning when there was no adapter to ask. -/
def probeActive (cfg : Config) (active : Option Runtime) (deadline : Ticks) : M (Option Bool × List String) :=
  match active with
  | none => pure (some true, [])
  | some active => do
    match ← attempt (makeAdapter cfg active.spec deadline) with
    | .error e => pure (none, [s!"active probe失敗 (adapter生成): {safeDetail e}"])
    | .ok _ => do pure (← probeAlive cfg active.spec deadline, [])

/-- The branch of `_recover_locked` for `ready`. -/
def recoverReadyLocked (cfg : Config) (deadline : Ticks) : M SwitchResult := do
  let state ← load
  let probed ← probeActive cfg state.active deadline
  match state.active, probed with
  | some active, (some false, _) => loseActiveLocked cfg state active deadline
  | some active, (none, warnings) => do
    let warnings ← repairMirror warnings
    pure (recoverReport .failed (some "probe_failed") (some "active runtimeの生存確認ができません (probe失敗)")
      warnings false (some active))
  | _, (_, warnings) => do
    let (pending, warnings) ← finalizeLocked cfg deadline warnings
    reconcileDanglingReceiptLocked
    pure (recoverReport .succeeded none (some "ready状態を確認しました") warnings pending)

/-- Finish the stop of the active runtime, if there is one. -/
def finishStopActive (cfg : Config) (active : Option Runtime) (deadline : Ticks) : M (Option (String × String)) :=
  match active with
  | none => pure none
  | some active => finishStop cfg active deadline "adapter生成に失敗しました"

/-- The branch of `_recover_locked` for a stop that was under way. -/
def recoverStoppingLocked (cfg : Config) (deadline : Ticks) : M SwitchResult := do
  let state ← load
  match ← finishStopActive cfg state.active deadline with
  | some (detail, errorCode) => recoverFailLocked state [] detail errorCode
  | none => do
    let lastResult := stopResult state.requestId state.active false
    let _ ← transition Phase.inProgress .idle (emptied lastResult)
    finishRecoveringOwner state.requestId lastResult
    let warnings ← repairMirror []
    pure { recoverReport .succeeded none (some "停止を完了しました") warnings false state.active with
      requestId := state.requestId }

/-- The branch of `_recover_locked` for a switch that was under way. -/
def recoverSwitchingLocked (cfg : Config) (state : Canonical) : M SwitchResult := do
  match state.requestId with
  | none => raise .stateCorrupt "進行中canonicalに対応するrequest receiptがありません"
  | some id =>
    match ← call (.loadReceipt id) with
    | none => raise .stateCorrupt "進行中canonicalに対応するrequest receiptがありません"
    | some receipt =>
      rollbackLocked cfg { requestId := id, status := .inProgress, existing := true, receipt := receipt } none
        "recovery" "crash後にrecoveryで復旧しました"

def recoverLocked (cfg : Config) (deadline : Ticks) (abandonProgramView : Bool := false)
    (adoptFailedCandidate : Bool := false) : M SwitchResult := do
  let state ← initializeState
  call (.log (.recoveryStarted abandonProgramView adoptFailedCandidate))
  match state.phase with
  | .draining => recoverDrainingLocked cfg state deadline
  | .idle => recoverIdleLocked cfg deadline
  | .recoveryRequired =>
    pure (recoverReport .failed (some "recovery_required") (some "canonical stateが壊れているため自動復旧できません") [] false)
  | .failed =>
    if adoptFailedCandidate then recoverAdoptFailedCandidateLocked cfg deadline []
    else recoverFailedLocked cfg deadline abandonProgramView
  | .ready => recoverReadyLocked cfg deadline
  | _ =>
    if state.operation = some .stop then recoverStoppingLocked cfg deadline
    else recoverSwitchingLocked cfg state

end Docich.GameSwitch
