import Docich.GameSwitch.Boundary

/-!
# Housekeeping, failure and rollback

- `finalizeLocked`: mirror the active game and clean the retiring runtimes, after a terminal write;
- `failLocked`: end a request in `failed`;
- `restorePreviousLocked`: bring the previous runtime back, alive under a fresh lease or as a fresh generation;
- `rollbackLocked`: drop the candidate, then restore.
-/

namespace Docich.GameSwitch

open Durable

/-! ## Retiring runtimes -/

/-- `committed_retirement_result`: the proof on a retiring runtime fits the runtime and the receipt it names. -/
def committedRetirementResult (runtime : Runtime) (proof : Commit) (receipt : Option Receipt) : Except Exc Result :=
  match receipt with
  | none => .error ⟨.stateCorrupt, "retirement commit/receiptがありません"⟩
  | some receipt =>
    if proof.source ≠ runtime.spec ∨ proof.active.id.generation ≤ proof.source.id.generation then
      .error ⟨.stateCorrupt, "retirement source/destination identityが一致しません"⟩
    else if (proof.operation = .stop ∨ proof.operation = .recover) ∨ receipt.operation ≠ proof.operation ∨
        receipt.target ≠ (if proof.operation = .rotate then none else some proof.active.game) ∨
        receipt.runtimeId ≠ proof.active.id then
      .error ⟨.stateCorrupt, "retirement request/receipt identityが一致しません"⟩
    else if receipt.status = .accepted ∨ receipt.status = .terminal .succeeded proof.result then .ok proof.result
    else .error ⟨.stateCorrupt, "retirement receiptは成功済みではありません"⟩

/-- Close the gap between a commit and its receipt, from the proof on the retiring runtime. -/
def closeRetirement (runtime : Runtime) : M Unit :=
  match runtime.retirement with
  | none => pure ()
  | some proof => do
    let original ← call (.loadReceipt proof.requestId)
    let result ← ofExcept (committedRetirementResult runtime proof original)
    when (original.map Receipt.status = some .accepted) do
      let _ ← finishRequestLocked proof.requestId .succeeded result
      pure ()

/-- One turn of the loop of `_finalize_locked`: is the runtime gone? -/
def collectRetiring (cfg : Config) (deadline : Ticks) (runtime : Runtime) : M Bool := do
  match ← attempt (do
    closeRetirement runtime
    let _ ← makeAdapter cfg runtime.spec deadline
    teardownRuntime cfg runtime.spec deadline) with
  | .ok tornDown => pure tornDown
  | .error _ => pure false

/-- The loop of `_finalize_locked`: what remains, and the warnings. -/
def collectAll (cfg : Config) (deadline : Ticks) : List Runtime → List String → M (List Runtime × List String)
  | [], warnings => pure ([], warnings)
  | runtime :: rest, warnings => do
    if ← collectRetiring cfg deadline runtime then do
      let warnings ← writeRetireMarker warnings runtime
      collectAll cfg deadline rest warnings
    else do
      let (remaining, warnings) ← collectAll cfg deadline rest
        (warnings ++ ["retiring runtimeの停止を確認できませんでした"])
      pure (runtime :: remaining, warnings)

/-- `_finalize_locked`: is some cleanup still pending, and the warnings. -/
def finalizeLocked (cfg : Config) (deadline : Ticks) (warnings : List String) : M (Bool × List String) := do
  let state ← load
  let warnings ← mirrorWarning warnings state.activeGame
  let (remaining, warnings) ← collectAll cfg deadline state.retiring warnings
  when (remaining.length ≠ state.retiring.length) do
    let _ ← transition (only state.phase) state.phase fun s => { s with retiring := remaining }
    pure ()
  match ← call (.chore .pruneHanjukuLogs) with
  | .ok () => pure (!remaining.isEmpty, warnings)
  | .error e => pure (!remaining.isEmpty, warnings ++ [s!"hanjuku log retention失敗: {safeDetail e}"])

def retryRetiringLocked (cfg : Config) (deadline : Ticks) (warnings : List String) : M (Bool × List String) := do
  let state ← load
  if state.retiring = [] then pure (false, warnings)
  else do
    let (pending, warnings) ← finalizeLocked cfg deadline warnings
    let state ← load
    pure (pending || !state.retiring.isEmpty, warnings)

def repairMirror (warnings : List String) : M (List String) := do
  let state ← load
  mirrorWarning warnings state.activeGame

/-! ## Failure -/

def failLocked (cfg : Config) (a : RequestAcceptance) (deadline : Ticks) (errorCode detail : String)
    (warnings : List String := []) (cleanupPending : Bool := false) (keepPrevious : Bool := false)
    (keepActive : Bool := false) : M SwitchResult := do
  let state ← load
  let lastResult : Result :=
    { requestId := some a.requestId, operation := a.receipt.operation, status := .failed
      fromGame := state.activeGame, toGame := a.receipt.target, generation := some a.generation
      errorCode := some errorCode, detail := some detail
      cleanupPending := if cleanupPending then some true else none }
  let _ ← transition Phase.inProgress .failed fun s =>
    { s.released with
      active := if keepActive then state.active else none
      candidate := state.candidate
      previous := if keepPrevious then state.previous else none
      lastResult := some lastResult }
  let receipt ← finishRequestLocked a.requestId .failed lastResult
  let (pending, warnings) ← finalizeLocked cfg deadline warnings
  pure (resultFromReceipt a.requestId receipt warnings (pending || cleanupPending))

/-! ## Restoring the previous runtime -/

/-- The phases a restore may start from. -/
def restorable (p : Phase) : Bool := p == .rollingBack || p == .failed

/-- What a restore handed back: a finished receipt, or the result when the receipt is left to the caller. -/
inductive Restored where
  | receipt (id : RequestId) (r : Receipt)
  | result (r : Result)

/-- The outcome of a restore, with the warnings and whether some cleanup is pending. -/
structure RestoreOutcome where
  restored : Option Restored
  warnings : List String
  pending : Bool := false

/-- A restore on behalf of a request, as `_restore_previous_locked` gets it. -/
structure RestoreRequest where
  requestId : Option RequestId
  operation : Operation
  target : Option GameName
  generation : Nat
  finishReceipt : Bool
  errorCode : Option String
  detail : Option String

/-- `request_id` as a transition records it: `validate_state` refuses the empty text. -/
def recordedId (id : Option RequestId) : M RequestId :=
  match id with
  | some id => pure id
  | none => raise .stateCorrupt "request_id が不正です"

def RestoreRequest.result (q : RestoreRequest) (previous : Runtime) (restoredGeneration : Nat) : Result where
  requestId := q.requestId
  operation := q.operation
  status := .rolledBack
  fromGame := some previous.spec.game
  toGame := q.target
  generation := some q.generation
  errorCode := q.errorCode
  detail := q.detail
  extra := .restored restoredGeneration

/-- A restore finishes the receipt of its request, unless that is left to the caller. -/
def finishRestored (q : RestoreRequest) (lastResult : Result) : M Restored :=
  match q.finishReceipt, q.requestId with
  | true, some id => do
    let receipt ← finishRequestLocked id .rolledBack lastResult
    pure (.receipt id receipt)
  | _, _ => pure (.result lastResult)

/-- The commit of a restore, and what follows it. -/
def commitRestore (cfg : Config) (q : RestoreRequest) (previous restored : Runtime) (deadline : Ticks)
    (warnings : List String) : M RestoreOutcome := do
  let lastResult := q.result previous restored.generation
  let _ ← transition restorable .ready fun s =>
    { s.released with
      active := some restored, candidate := none, previous := none
      lastResult := some lastResult }
  let _ ← call (.chore (.postCommit restored.spec.game))
  let done ← finishRestored q lastResult
  let (pending, warnings) ← finalizeLocked cfg deadline warnings
  pure ⟨some done, warnings, pending⟩

/-- Adapter call `proof`: is the candidate the one live singleton? -/
def singletonProof (cfg : Config) (spec : RuntimeSpec) (deadline : Ticks) : M Bool :=
  callAdapter spec .restoreSingletonIdentity deadline cfg.probeTimeout

/-- May the restore only re-lease a shared singleton that is still alive? -/
def liveSingletonOnly (cfg : Config) (state : Canonical) (previous : Runtime) (deadline : Ticks) : M Bool := do
  if state.candidate = none ∧ state.retiring ≠ [] ∧ previous.spec.adapter = "soren" then
    match ← attempt (do
      let adapter ← makeAdapter cfg previous.spec deadline
      if adapter.policy.canRestoreLiveSingleton then singletonProof cfg previous.spec deadline
      else pure false) with
    | .ok b => pure b
    | .error _ => pure false
  else pure false

/-- The last look at a shared singleton before it is taken over. -/
def provenSingleton (cfg : Config) (previous : Runtime) (live : Bool) (deadline : Ticks) : M Bool :=
  if live then do
    match ← attempt (singletonProof cfg previous.spec deadline) with
    | .ok b => pure b
    | .error _ => pure false
  else pure true

/-- Start the agent, where the game has one. -/
def startAgent (cfg : Config) (spec : RuntimeSpec) (adapter : Adapter) (deadline : Ticks) : M (Except Exc Bool) :=
  if adapter.policy.agentEnabled then attempt (callAdapter spec .startAgent deadline cfg.agentStartTimeout)
  else pure (.ok true)

def restoreAlive (cfg : Config) (q : RestoreRequest) (previous : Runtime) (lease : LeaseId) (adapter : Adapter)
    (live : Bool) (deadline : Ticks) (warnings : List String) : M RestoreOutcome := do
  let spec := { previous.spec with lease := lease }
  let restored := { previous with spec := spec }
  match ← attempt (do
    let _ ← callAdapter spec .stopAgent deadline cfg.stopAgentTimeout
    callAdapter spec .readiness deadline (max (deadline - (← monotonic)) 0)) with
  | .error e => pure ⟨none, warnings ++ [s!"previous readiness確認失敗: {safeDetail e}"], false⟩
  | .ok _ => do
    if ¬ (← provenSingleton cfg previous live deadline) then
      pure ⟨none, warnings ++ ["共有singletonの復帰直前照合に失敗しました"], false⟩
    else do
      let id ← recordedId q.requestId
      let _ ← transition restorable .rollingBack fun s =>
        { s with previous := some restored, operation := some q.operation, requestId := some id }
      match ← startAgent cfg spec adapter deadline with
      | .error e => pure ⟨none, warnings ++ [s!"agent再起動失敗: {safeDetail e}"], false⟩
      | .ok _ => commitRestore cfg q previous restored deadline warnings

/-- The steps that start a runtime: materialize, readiness, agent. -/
def startRestored (cfg : Config) (spec : RuntimeSpec) (adapter : Adapter) (deadline : Ticks) : M Unit := do
  let timeout ← materializeTimeout cfg adapter
  let _ ← callAdapter spec .materialize deadline timeout
  checkDeadline deadline
  let _ ← callAdapter spec .readiness deadline (max (deadline - (← monotonic)) 0)
  if adapter.policy.agentEnabled then do
    let _ ← callAdapter spec .startAgent deadline cfg.agentStartTimeout
    pure ()
  else pure ()

/-- A candidate that was not seen gone stays on record among the retiring runtimes. -/
def parkCandidate (candidate : Runtime) (s : Canonical) : Canonical :=
  { s with
    candidate := none
    retiring := { candidate with cleanupRole := some .failedCandidate } :: s.retiring }

/-- A candidate that was seen gone is dropped. -/
def dropCandidate (s : Canonical) : Canonical := { s with candidate := none }

/-- The runtime that restores a stopped one as a fresh generation. -/
def freshRuntime (previous : Runtime) : M Runtime := do
  let state ← load
  let runtimeId ← newRuntimeId state.nextGeneration
  let lease ← call .newLease
  let now ← call .now
  pure { spec := { previous.spec with id := runtimeId, lease := lease }, startedAt := now }

/-- The restore of a runtime that is gone, as a fresh generation. -/
def restoreFresh (cfg : Config) (q : RestoreRequest) (previous : Runtime) (deadline : Ticks) (warnings : List String) :
    M RestoreOutcome := do
  let fresh ← freshRuntime previous
  let id ← recordedId q.requestId
  let _ ← transition restorable .rollingBack fun s =>
    { s with
      nextGeneration := fresh.generation + 1
      candidate := some fresh
      operation := some q.operation
      requestId := some id }
  match ← attempt (makeAdapter cfg fresh.spec deadline) with
  | .error e => pure ⟨none, warnings ++ [s!"rollback adapter生成失敗: {safeDetail e}"], false⟩
  | .ok adapter => do
    match ← attempt (startRestored cfg fresh.spec adapter deadline) with
    | .error e => do
      let tornDown ← teardownRuntime cfg fresh.spec deadline
      let state ← load
      match state.candidate with
      | some candidate => do
        let _ ← transition (only .rollingBack) .rollingBack
          (if tornDown then dropCandidate else parkCandidate candidate)
        pure ⟨none, warnings ++ [s!"rollback起動失敗: {safeDetail e}"], false⟩
      | none => pure ⟨none, warnings ++ [s!"rollback起動失敗: {safeDetail e}"], false⟩
    | .ok () => commitRestore cfg q previous fresh deadline warnings

/-- `_restore_previous_locked` for a runtime that is gone: positive evidence first, where the game asks for it. -/
def restoreStopped (cfg : Config) (q : RestoreRequest) (previous : Runtime) (spec : RuntimeSpec) (adapter : Adapter)
    (deadline : Ticks) (warnings : List String) : M RestoreOutcome := do
  if adapter.policy.canRestoreStoppedRuntime then
    match ← attempt (callAdapter spec .restoreContinuity deadline cfg.probeTimeout) with
    | .error e => pure ⟨none, warnings ++ [s!"previousの継続証拠を確認できません: {safeDetail e}"], false⟩
    | .ok false =>
      pure ⟨none, warnings ++ ["previousの継続証拠がないため新規ゲームへの置換を拒否しました"], false⟩
    | .ok true => restoreFresh cfg q previous deadline warnings
  else restoreFresh cfg q previous deadline warnings

def restorePreviousLocked (cfg : Config) (q : RestoreRequest) (previous : Runtime) (deadline : Ticks)
    (warnings : List String) : M RestoreOutcome := do
  let state ← load
  let live ← liveSingletonOnly cfg state previous deadline
  if state.candidate.isSome ∨ (state.retiring ≠ [] ∧ ¬ live) then
    pure ⟨none, warnings ++ ["未停止runtimeがあるためpreviousの再起動を拒否しました"], true⟩
  else do
    let lease ← call .newLease
    let spec := { previous.spec with lease := lease }
    match ← attempt (makeAdapter cfg spec deadline) with
    | .error e => pure ⟨none, warnings ++ [s!"previous adapter生成失敗: {safeDetail e}"], false⟩
    | .ok adapter => do
      let alive ← probeAlive cfg spec deadline
      if live ∧ alive ≠ some true then
        pure ⟨none, warnings ++ ["共有singletonの再起動は許可されていません"], false⟩
      else
        match alive with
        | some true => restoreAlive cfg q previous lease adapter live deadline warnings
        | some false => restoreStopped cfg q previous spec adapter deadline warnings
        | none =>
          if adapter.name = "program" then do
            let warning := if ← teardownRuntime cfg spec deadline then
                "program viewの生存確認不能をteardownして復旧"
              else "program viewの生存確認不能 (teardown未確認)"
            restoreStopped cfg q previous spec adapter deadline (warnings ++ [warning])
          else
            pure ⟨none, warnings ++ ["previous runtimeの生存確認ができません (probe失敗)"], false⟩

/-! ## Rollback -/

/-- The first half of `_rollback_locked`: drop the candidate, or keep it on record when it was not seen gone. -/
def rollbackCandidate (cfg : Config) (deadline : Ticks) : M Bool := do
  let state ← load
  match state.candidate with
  | none => pure false
  | some candidate => do
    let tornDown ← tearDownRecorded cfg candidate.spec deadline
    let _ ← transition (only .rollingBack) .rollingBack (if tornDown then dropCandidate else parkCandidate candidate)
    when (candidate.spec.game = "hanjuku-hero") do
      ofExcept (← call (.chore (.transitionRollbackClaim tornDown)))
    pure (!tornDown)

def rollbackLocked (cfg : Config) (a : RequestAcceptance) (target : Option GameName) (errorCode detail : String) :
    M SwitchResult := do
  let deadline := (← monotonic) + cfg.rollbackTimeout
  let _ ← transition Phase.inProgress .rollingBack
  let pending ← rollbackCandidate cfg deadline
  let warnings := if pending then ["candidateの停止を確認できませんでした"] else []
  let state ← load
  match state.previous.or state.active with
  | none => failLocked cfg a deadline errorCode detail warnings pending
  | some previous => do
    when (state.previous = none) do
      let _ ← transition (only .rollingBack) .rollingBack fun s =>
        { s with active := none, previous := some previous }
      pure ()
    let outcome ← restorePreviousLocked cfg
      { requestId := some a.requestId, operation := a.receipt.operation, target := target.or a.receipt.target
        generation := a.generation, finishReceipt := true, errorCode := some errorCode, detail := some detail }
      previous deadline warnings
    let pending := pending || outcome.pending
    match outcome.restored with
    | some (.receipt id receipt) => pure (resultFromReceipt id receipt outcome.warnings pending)
    | some (.result r) => pure (resultFromLastResult r outcome.warnings pending)
    | none =>
      failLocked cfg a deadline "rollback_failed" s!"rollback失敗 (原因: {errorCode}: {detail})" outcome.warnings
        pending true

end Docich.GameSwitch
