import Docich.GameSwitch.Store

/-!
# Adapter steps and reports

- `callAdapter`, `probeAlive`, `makeAdapter`, `waitStopped`, `teardownRuntime`: one adapter call each, bounded by a
  deadline, or a short fixed sequence of them;
- `roundBoundaryRequired`, `boundaryTimeoutOverride`, `materializeTimeout`: optional attributes of an adapter;
- `resultFromReceipt`, `queuedResult`, `staleResult`: the common reports.
-/

namespace Docich.GameSwitch

open Durable

/-- The parameters of a coordinator. `entryPolls` and `stopPolls` bound how often a polling loop can turn before its
window ends, `recursionLimit` how often a request may find yet another expired drain after it recovered one. -/
structure Config where
  defaultTimeout : Ticks
  quiesceVerifyTimeout : Ticks
  rollbackTimeout : Ticks
  preflightTimeout : Ticks
  roundBoundaryTimeout : Ticks
  roundCancelTimeout : Ticks
  stopAgentTimeout : Ticks
  startTimeout : Ticks
  agentStartTimeout : Ticks
  cleanupTimeout : Ticks
  probeTimeout : Ticks
  entryPolls : Nat
  stopPolls : Nat
  recursionLimit : Nat

def attempt {α : Type} (x : M α) : M (Except Exc α) := Program.attempt x

def monotonic : M Ticks := call .monotonic

/-! ## Bounded calls -/

/-- `_call_adapter`: a timed out call raises, like a failed one. -/
def callAdapter (spec : RuntimeSpec) (step : AdapterStep) (deadline timeout : Ticks) : M Bool := do
  let now ← monotonic
  require (0 < min (deadline - now) timeout) .deadlineExceeded "adapterのdeadlineを超過しました"
  ofExcept (← call (.adapter spec step))

def checkDeadline (deadline : Ticks) : M Unit := do
  let now ← monotonic
  require (now < deadline) .deadlineExceeded "request deadline を超過しました"

/-- `_probe_alive`: `none` when the probe itself failed. -/
def probeAlive (cfg : Config) (spec : RuntimeSpec) (deadline : Ticks) : M (Option Bool) := do
  match ← attempt (callAdapter spec .alive deadline cfg.probeTimeout) with
  | .ok alive => pure (some alive)
  | .error _ => pure none

/-- `_make_adapter`: a runtime recorded under one kind of adapter is never handled by another. -/
def makeAdapter (cfg : Config) (spec : RuntimeSpec) (deadline : Ticks) : M Adapter := do
  let now ← monotonic
  require (0 < min (deadline - now) cfg.startTimeout) .deadlineExceeded "adapter factory のdeadlineを超過しました"
  match ← ofExcept (← call (.factory spec)) with
  | none => raise .gameSwitch "adapter factory が CoordinatorAdapter を返していません"
  | some adapter => do
    require (adapter.name ≠ "") .gameSwitch "adapter が name を返していません"
    require (spec.adapter = "" ∨ adapter.name = spec.adapter) .gameSwitch "adapter種別が一致しません"
    pure adapter

def runtimeConfirmedDead (cfg : Config) (spec : RuntimeSpec) (deadline : Ticks) : M Bool := do
  pure ((← probeAlive cfg spec deadline) = some false)

/-- The loop of `_wait_stopped`, and the last probe after it. -/
def waitStoppedLoop (cfg : Config) (spec : RuntimeSpec) (deadline limit : Ticks) : Nat → M Bool
  | 0 => runtimeConfirmedDead cfg spec deadline
  | n + 1 => do
    let now ← monotonic
    if now < limit then
      if ← runtimeConfirmedDead cfg spec deadline then pure true
      else waitStoppedLoop cfg spec deadline limit n
    else runtimeConfirmedDead cfg spec deadline

def waitStopped (cfg : Config) (spec : RuntimeSpec) (deadline : Ticks) : M Bool := do
  let now ← monotonic
  waitStoppedLoop cfg spec deadline (min deadline (now + cfg.quiesceVerifyTimeout)) cfg.stopPolls

/-- Stop the agent, then the runtime. -/
def stopAndCleanup (cfg : Config) (spec : RuntimeSpec) (deadline : Ticks) : M Unit := do
  let _ ← callAdapter spec .stopAgent deadline cfg.stopAgentTimeout
  let _ ← callAdapter spec .cleanup deadline cfg.cleanupTimeout
  pure ()

/-- `_teardown_runtime`: stop agent and runtime, and see it gone. -/
def teardownRuntime (cfg : Config) (spec : RuntimeSpec) (deadline : Ticks) : M Bool := do
  match ← attempt (do stopAndCleanup cfg spec deadline; waitStopped cfg spec deadline) with
  | .ok stopped => pure stopped
  | .error _ => pure false

/-- Make the adapter of a recorded runtime and tear it down; any failure counts as not torn down. -/
def tearDownRecorded (cfg : Config) (spec : RuntimeSpec) (deadline : Ticks) : M Bool := do
  match ← attempt (do let _ ← makeAdapter cfg spec deadline; teardownRuntime cfg spec deadline) with
  | .ok tornDown => pure tornDown
  | .error _ => pure false

/-! ## Optional attributes -/

def roundBoundaryRequired (a : Adapter) : M Bool :=
  match a.policy.requiresRoundBoundary with
  | .absent => pure false
  | .value b => pure b
  | .invalid => raise .gameSwitch "adapter.requires_round_boundary はboolである必要があります"

def boundaryTimeoutOverride (a : Adapter) : M (Option Ticks) :=
  match a.policy.roundBoundaryTimeout with
  | .absent => pure none
  | .invalid => raise .gameSwitch "adapter.round_boundary_timeout_s は秒数 (数値) が必要です"
  | .value t => do
    require (0 < t) .gameSwitch "adapter.round_boundary_timeout_s は正の秒数が必要です"
    pure (some t)

def materializeTimeout (cfg : Config) (a : Adapter) : M Ticks :=
  match a.policy.materializeTimeout with
  | .absent => pure cfg.startTimeout
  | .invalid => raise .gameSwitch "adapter.materialize_timeout_s は秒数 (数値) が必要です"
  | .value t => do
    require (0 < t) .gameSwitch "adapter.materialize_timeout_s は正の秒数が必要です"
    pure t

/-! ## Wall-clock deadlines -/

/-- `_wall_deadline_expired`: a missing deadline is over. -/
def wallDeadlineExpired (deadline : Option Instant) : M Bool := do
  let now ← call .now
  pure (deadline.all (· ≤ now))

/-! ## Reports -/

def failureCode (e : Exc) (default : String := "start_failed") : String :=
  match e.kind with
  | .readinessTimeout => "readiness_timeout"
  | .deadlineExceeded => "timeout"
  | _ => default

/-- `_result_from_receipt`. Only terminal receipts get here. -/
def resultFromReceipt (id : RequestId) (r : Receipt) (warnings : List String := []) (cleanupPending : Bool := false) :
    SwitchResult :=
  match r.status with
  | .terminal status result =>
    { requestId := some id, operation := .op r.operation, status := status.switchStatus, target := r.target
      fromGame := result.fromGame, toGame := result.toGame, generation := some r.generation
      errorCode := result.errorCode, detail := result.detail, warnings := warnings
      cleanupPending := cleanupPending || result.cleanupPending.getD false, receipt := some r }
  | _ =>
    { requestId := some id, operation := .op r.operation, status := .inProgress, target := r.target
      generation := some r.generation, warnings := warnings, cleanupPending := cleanupPending, receipt := some r }

/-- `_result_from_receipt`, given the `last_result` of a recovery in place of a receipt. -/
def resultFromLastResult (r : Result) (warnings : List String) (cleanupPending : Bool) : SwitchResult where
  requestId := r.requestId
  operation := .op r.operation
  status := r.status.switchStatus
  generation := r.generation
  errorCode := r.errorCode
  detail := r.detail
  warnings := warnings
  cleanupPending := cleanupPending

def queuedResult (id : RequestId) (r : Receipt) (fromGame : Option GameName := none) : SwitchResult where
  requestId := some id
  operation := .op r.operation
  status := .queued
  target := r.target
  fromGame := fromGame
  toGame := r.target
  generation := some r.generation
  errorCode := some "queued"
  detail := some "ゲーム切替キューで順番待ちです"
  receipt := some r

/-- `_round_boundary_stale_result`: the report of a driver that lost its drain. -/
def staleResult (a : RequestAcceptance) (target : Option GameName) (detail : String) : SwitchResult where
  requestId := some a.requestId
  operation := .op a.receipt.operation
  status := .failed
  target := target
  toGame := target
  generation := some a.generation
  errorCode := some "recovery_required"
  detail := some detail
  receipt := some a.receipt

end Docich.GameSwitch
