import Docich.GameSwitch.Steps

/-!
# The wait for a round boundary

- `awaitRoundBoundaryLocked`: wait without the lock, then take it again and check every identity field;
- `cancelRoundBoundaryLocked`: take back a boundary request, again without the lock;
- `roundBoundaryFailureLocked`, `retireDeadActiveLocked`: the end of a drain that did not reach its boundary.
-/

namespace Docich.GameSwitch

open Durable

/-! ## Giving the lock back for a wait -/

def releaseForWait : M Unit := do
  requireExclusiveLock
  Program.ask .release .ret

/-- `reacquire_for_wait`: polling within a window, or the deadline error. -/
def reacquireForWait (id : RequestId) : M Unit :=
  Program.ask (.acquire (.reacquire id)) fun
    | true => pure ()
    | false => raise .deadlineExceeded "draining後のwriter lock再取得がdeadlineを超過しました"

/-- Expected phases of a transition, given as one phase. -/
def only (p : Phase) : Phase → Bool := (· == p)

/-- An unsupported result raised by a callable adapter: the request was started. -/
def markStarted (e : Exc) : Exc :=
  match e.kind with
  | .roundBoundaryUnsupported _ => { e with kind := .roundBoundaryUnsupported true }
  | _ => e

/-- The part of `_await_round_boundary_locked` before the wait: how long the wait may take. -/
def extendDeadline (override : Option Ticks) (deadline : Ticks) (allowTimeoutExtension : Bool) : M Ticks :=
  match override with
  | none => pure deadline
  | some override =>
    if allowTimeoutExtension then do
      let extended := (← monotonic) + override
      if extended > deadline then do
        let now ← call .now
        let _ ← transition (only .draining) .draining fun s => { s with deadlineAt := some (now + override.toNat) }
        pure extended
      else pure deadline
    else pure deadline

/-- The part after the wait: give the remaining steps the budget that was left when it began. -/
def restoreBudget (deadline waitDeadline remaining : Ticks) : M Ticks :=
  if waitDeadline ≤ deadline then pure waitDeadline
  else do
    let post := min waitDeadline ((← monotonic) + remaining)
    let now ← call .now
    let left := max (post - (← monotonic)) 0
    let _ ← transition (only .draining) .draining fun s => { s with deadlineAt := some (now + left.toNat) }
    pure post

def awaitRoundBoundaryLocked (cfg : Config) (adapter : Adapter) (oldActive : Runtime) (acceptance : RequestAcceptance)
    (deadline : Ticks) (allowTimeoutExtension : Bool := true) : M Ticks := do
  let required ← roundBoundaryRequired adapter
  match adapter.policy.requestRoundBoundary with
  | .absent =>
    if required then
      raise (.roundBoundaryUnsupported false) "このゲームは試合終了境界を要求しますがadapterが未対応です"
    else pure deadline
  | .notCallable =>
    raise (.roundBoundaryUnsupported false) "adapter.request_round_boundary がcallableではありません"
  | .callable => do
    let override ← boundaryTimeoutOverride adapter
    let remaining := max (deadline - (← monotonic)) 0
    let waitDeadline ← extendDeadline override deadline allowTimeoutExtension
    call (.log (.roundBoundaryWaiting acceptance.requestId oldActive.spec))
    releaseForWait
    let result ← attempt (callAdapter oldActive.spec (.roundBoundary acceptance.requestId) waitDeadline
      (override.getD cfg.roundBoundaryTimeout))
    reacquireForWait acceptance.requestId
    match result with
    | .error e => throw (markStarted e)
    | .ok false => raise .roundBoundary "adapterが試合終了境界をacknowledgeしませんでした"
    | .ok true => do
      let current ← load
      let expired ← wallDeadlineExpired current.deadlineAt
      require (current.phase = .draining ∧ current.requestId = some acceptance.requestId ∧
          current.active = some oldActive ∧ current.candidate = none ∧ current.previous = none ∧ expired = false)
        .roundBoundaryStateChanged "draining中にcanonicalのrequest/active identityが変化しました"
      call (.log (.roundBoundaryReached acceptance.requestId oldActive.spec))
      restoreBudget deadline waitDeadline remaining

/-! ## Cancelling -/

/-- The fields that a cancellation compares before and after its wait. -/
def Canonical.drainIdentity (c : Canonical) :
    Phase × Option RequestId × Option Runtime × Option Runtime × Option Runtime :=
  (c.phase, c.requestId, c.active, c.candidate, c.previous)

/-- The identity at the start of a cancellation, which must be a drain of this request. -/
def drainIdentityOf (id : RequestId) : M Canonical := do
  let before ← load
  require (before.phase = .draining ∧ before.requestId = some id) .roundBoundaryStateChanged
    "cancel開始時にdraining identityが変化しました"
  pure before

def sameDrain (before : Canonical) (text : String) : M Unit := do
  let current ← load
  require (current.drainIdentity = before.drainIdentity) .roundBoundaryStateChanged text

def cancelRoundBoundaryOnce (cfg : Config) (spec : RuntimeSpec) (id : RequestId) : M (Bool × Option String) := do
  let before ← drainIdentityOf id
  let cancelDeadline := (← monotonic) + cfg.roundCancelTimeout
  releaseForWait
  let result ← attempt (callAdapter spec (.cancelRoundBoundary id) cancelDeadline cfg.roundCancelTimeout)
  reacquireForWait id
  sameDrain before "cancel待機中にdraining identityが変化しました"
  match result with
  | .error e => pure (false, some (safeDetail e))
  | .ok false => pure (false, some "adapterがcancel_round_boundaryをacknowledgeしませんでした")
  | .ok true => pure (true, none)

/-- `_cancel_round_boundary_locked`: the first caller of a process cancels, later ones wait for its outcome. -/
def cancelRoundBoundaryLocked (cfg : Config) (spec : RuntimeSpec) (adapter : Adapter) (id : RequestId) :
    M (Bool × Option String) :=
  if adapter.policy.cancelRoundBoundary ≠ .callable then
    pure (false, some "adapter.cancel_round_boundary がcallableではありません")
  else do
    let before ← drainIdentityOf id
    if ← call (.claimCancel id) then cancelRoundBoundaryOnce cfg spec id
    else do
      releaseForWait
      let outcome ← call (.awaitCancel id)
      reacquireForWait id
      sameDrain before "cancel結果待機中にdraining identityが変化しました"
      pure outcome

/-! ## The end of a drain without its boundary -/

/-- The result of a drain that ended without its boundary. -/
def boundaryFailedResult (a : RequestAcceptance) (oldActive : Runtime) (target : Option GameName)
    (errorCode detail : String) (extra : Extra) : Result where
  requestId := some a.requestId
  operation := a.receipt.operation
  status := .failed
  fromGame := some oldActive.spec.game
  toGame := target
  generation := some a.generation
  errorCode := some errorCode
  detail := some detail
  extra := extra

def mirrorWarning (warnings : List String) (game : Option GameName) : M (List String) := do
  match ← call (.chore (.mirror game)) with
  | .ok () => pure warnings
  | .error e => pure (warnings ++ [s!"current_game mirror更新失敗: {safeDetail e}"])

def writeRetireMarker (warnings : List String) (r : Runtime) : M (List String) := do
  match ← call (.chore (.retireMarker r.spec.id)) with
  | .ok () => pure warnings
  | .error e => pure (warnings ++ [s!"retire marker書き込み失敗: {safeDetail e}"])

/-- `_retire_dead_active_locked`: the old runtime is dead; uncommit it first, collect it second. -/
def retireDeadActiveLocked (cfg : Config) (a : RequestAcceptance) (target : Option GameName) (oldActive : Runtime)
    (state : Canonical) (errorCode detail : String) (boundaryCancelled : Bool) : M SwitchResult := do
  let retiringEntry := { oldActive with cleanupRole := some .failedBoundaryActive }
  let _ ← transition (only .draining) .idle fun s =>
    { s.released with
      active := none, candidate := none, previous := none
      retiring := retiringEntry :: state.retiring }
  let tornDown ← teardownRuntime cfg oldActive.spec ((← monotonic) + cfg.rollbackTimeout)
  let warnings := if tornDown then [] else ["停止確認済みruntimeの回収を確認できませんでした"]
  let lastResult := { boundaryFailedResult a oldActive target errorCode detail
      (.boundaryFailed none boundaryCancelled) with cleanupPending := some (!tornDown) }
  let _ ← transition (only .idle) .idle fun s =>
    { s with
      retiring := if tornDown then state.retiring else retiringEntry :: state.retiring
      lastResult := some lastResult }
  let receipt ← finishRequestLocked a.requestId .failed lastResult
  let warnings ← (if tornDown then writeRetireMarker warnings retiringEntry else pure warnings)
  let warnings ← mirrorWarning warnings none
  pure (resultFromReceipt a.requestId receipt warnings (!tornDown))

/-- The drain goes back to `ready` with the same active runtime, and the request fails. -/
def retainActiveLocked (a : RequestAcceptance) (oldActive : Runtime) (lastResult : Result) : M SwitchResult := do
  let _ ← transition (only .draining) .ready fun s =>
    { s.released with
      active := some oldActive, candidate := none, previous := none
      lastResult := some lastResult }
  let receipt ← finishRequestLocked a.requestId .failed lastResult
  pure (resultFromReceipt a.requestId receipt)

/-- The end of `_round_boundary_failure_locked`, once the boundary request is out of the way. -/
def abortBoundaryLocked (cfg : Config) (a : RequestAcceptance) (target : Option GameName) (oldActive : Runtime)
    (state : Canonical) (errorCode detail : String) (cancelBoundary : Bool) : M SwitchResult := do
  let alive ← probeAlive cfg oldActive.spec ((← monotonic) + cfg.probeTimeout)
  if alive = some false then
    retireDeadActiveLocked cfg a target oldActive state errorCode detail cancelBoundary
  else
    retainActiveLocked a oldActive
      (boundaryFailedResult a oldActive target errorCode detail (.boundaryFailed (some oldActive) cancelBoundary))

/-- A drain whose boundary request could not be cancelled stays `draining`. -/
def keepDrainingLocked (a : RequestAcceptance) (target : Option GameName) (oldActive : Runtime) (detail : String)
    (cancelDetail : Option String) : M SwitchResult := do
  let recoveryDetail := s!"{detail}; boundary requestのcancelに失敗しました" ++
    (cancelDetail.elim "" fun t => s!": {t}")
  let lastResult := boundaryFailedResult a oldActive target "recovery_required" recoveryDetail .none
  let _ ← transition (only .draining) .draining fun s => { s with lastResult := some lastResult }
  pure { staleResult a target recoveryDetail with fromGame := some oldActive.spec.game }

/-- The terminal receipt of the request if there is one, else the report of a stale driver. -/
def terminalOrStale (a : RequestAcceptance) (target : Option GameName) (detail : String) : M SwitchResult := do
  match ← call (.loadReceipt a.requestId) with
  | some receipt =>
    if receipt.status.isTerminal then pure (resultFromReceipt a.requestId receipt)
    else pure (staleResult a target detail)
  | none => pure (staleResult a target detail)

def roundBoundaryFailureLocked (cfg : Config) (a : RequestAcceptance) (target : Option GameName) (oldActive : Runtime)
    (adapter : Adapter) (errorCode detail : String) (cancelBoundary : Bool := true) : M SwitchResult := do
  let state ← load
  if ¬ (state.phase = .draining ∧ state.requestId = some a.requestId ∧ state.active = some oldActive) then
    terminalOrStale a target "round boundary失敗時にcanonical identityが変化しています"
  else if cancelBoundary then do
    match ← attempt (cancelRoundBoundaryLocked cfg oldActive.spec adapter a.requestId) with
    | .error e =>
      if e.kind = .roundBoundaryStateChanged ∨ e.kind = .deadlineExceeded then
        pure (staleResult a target s!"boundary cancel後の再検証に失敗しました: {safeDetail e}")
      else throw e
    | .ok (false, cancelDetail) => keepDrainingLocked a target oldActive detail cancelDetail
    | .ok (true, _) => abortBoundaryLocked cfg a target oldActive state errorCode detail true
  else abortBoundaryLocked cfg a target oldActive state errorCode detail false

end Docich.GameSwitch
