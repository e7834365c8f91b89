import Docich.Durable.Owner
import Docich.GameSwitch.Data
import Mathlib.Data.Rat.Defs

/-!
# The lifecycle of the puyo program view

- `State`: the state file of the corner;
- `Ask`: what a manager asks its surroundings for;
- `runRotation`, `reconcileFailedStart`, `settleReleasedFailure`: the calls that are made under the lock of the rotation.

The game switch is behind `SwitchCall`. A loop of `waitAndRestore` makes as many rounds as its argument says, and then it is given up
like a process that dies.
-/

namespace Docich.PuyoProgram

open GameSwitch (RequestId GameName ActiveIdentity Runtime Canonical Receipt Result SwitchResult SwitchStatus TerminalStatus Operation Phase)

/-! ## The state file -/

def VIEW_NAME : GameName := "puyo-view"

inductive Status
  | idle
  | starting
  | active
  | restoring
  | completed
  | interrupted
  | failed
  deriving DecidableEq

inductive EndReason
  | duration
  | manual
  | operator_moved_after_start
  | operator_moved_during
  | operator_moved_before_restore
  | operator_stopped_before_start
  | switch_terminal_before_corner_active
  | released_failure_before_retry

inductive Sent
  | sent
  | failed
  | skipped
  deriving DecidableEq

/-- What is recorded of an announcement: the request it is tried for, then how it went. -/
inductive Announced
  | tried (request : RequestId)
  | done (request : RequestId) (overlay speech : Sent)
  deriving DecidableEq

inductive AnnounceKey
  | start
  | result
  deriving DecidableEq

structure State where
  status : Status := .idle
  rotation_request_id : Option RequestId := none
  start_request_id : Option RequestId := none
  switch_request_id : Option RequestId := none
  restore_request_id : Option RequestId := none
  switch_status : Option SwitchStatus := none
  previous_game : Option GameName := none
  previous_runtime_identity : Option ActiveIdentity := none
  starting_runtime_identity : Option ActiveIdentity := none
  puyo_program_runtime_identity : Option ActiveIdentity := none
  restored_runtime_identity : Option ActiveIdentity := none
  requested_at : Option ℚ := none
  started_at : Option ℚ := none
  ends_at : Option ℚ := none
  restore_requested_at : Option ℚ := none
  completed_at : Option ℚ := none
  last_error_code : Option String := none
  end_reason : Option EndReason := none
  announce : AnnounceKey → Option Announced := fun _ => none

/-- The corner may be taken by another request. -/
def Status.released : Status → Bool
  | .idle | .completed | .interrupted => true
  | _ => false

/-! ## Requests -/

/-- A call of the coordinator: with the fence of the source runtime, where there is one. -/
inductive SwitchCall
  | start (game : GameName) (request : RequestId)
  | switch (game : GameName) (request : RequestId) (expected_source : ActiveIdentity)
  | stop (request : RequestId) (expected_source : ActiveIdentity)

inductive Exc
  | program (text : String)
  | switch (e : GameSwitch.Exc)
  | os
  /-- Not of the source: a wait that is given up. -/
  | unended

/-- What a manager asks for. `stopRequested`, `dispatch` and `announce` name the run they are made for; the surroundings keep a record
of it. -/
inductive Ask
  | clock
  | sleep (seconds : ℚ)
  | newRequestId
  | readState
  | save (state : State)
  | stopRequested (run : RequestId)
  | clearStopRequest
  | canonical
  | receipt (request : RequestId)
  | dispatch (run : RequestId) (call : SwitchCall)
  | announce (run : RequestId) (key : AnnounceKey)
  | loadResult
  | lockStore
  | loadCanonical
  | queued

/-- `canonical` is none when the store is busy, `loadCanonical` none when there is no file; `announce` is none when it raised;
`loadResult` tells whether there is a result to announce. -/
abbrev Ask.Answer : Ask → Type
  | .clock => ℚ
  | .sleep _ => Unit
  | .newRequestId => RequestId
  | .readState => Except Exc State
  | .save _ => Except Exc Unit
  | .stopRequested _ => Bool
  | .clearStopRequest => Bool
  | .canonical => Except Exc (Option Canonical)
  | .receipt _ => Except Exc (Option Receipt)
  | .dispatch _ _ => Except Exc SwitchResult
  | .announce _ _ => Option (Sent × Sent)
  | .loadResult => Bool
  | .lockStore => Bool
  | .loadCanonical => Except Exc (Option Canonical)
  | .queued => Except Exc (List RequestId)

abbrev M (α : Type) := Durable.Program Ask Ask.Answer Exc α

def call (q : Ask) : M q.Answer := .ask q .ret

def orRaise {α : Type} (x : M (Except Exc α)) : M α := x >>= Durable.Program.ofExcept

def fail {α : Type} (text : String) : M α := .raise (.program text)

def require (c : Bool) (text : String) : M Unit := if c then pure () else fail text

def save (state : State) : M Unit := orRaise (call (.save state))

/-! ## The canonical state -/

def identity (r : Runtime) : ActiveIdentity := r.spec.activeIdentity

def stable (c : Canonical) : Bool := c.phase.stable && c.candidate.isNone && c.previous.isNone && c.retiring.isEmpty

/-- The runtime that a start displaces. -/
def source (c : Canonical) : M (Option ActiveIdentity) := do
  require (c.phase = .idle || c.phase = .ready || c.phase = .draining) "game-switch requires recovery"
  if c.phase = .idle then do
    require c.active.isNone "idle game-switch state has an active runtime"
    pure none
  else
    match c.active with
    | none => fail "active game-switch state has no runtime"
    | some active => pure (some (identity active))

def matchesActive (c : Canonical) (i : ActiveIdentity) : Bool := c.active.any fun r => identity r = i

/-- `active_runtime` of a result. -/
def activeRuntime (r : Result) : Option ActiveIdentity :=
  match r.extra with
  | .commit _ active => some active
  | .adopted active => some active
  | _ => none

def resultOf (r : Receipt) : Option (TerminalStatus × Result) :=
  match r.status with
  | .terminal status result => some (status, result)
  | _ => none

/-! ## The end of a run -/

inductive Outcome
  | queued
  | completed
  deriving DecidableEq

def PENDING_SWITCH_STATUSES : List SwitchStatus := [.queued, .inProgress, .busy]

def interrupted (state : State) (now : ℚ) (reason : EndReason) : State :=
  { state with status := .interrupted, completed_at := some now, end_reason := some reason, switch_request_id := none, switch_status := none }

def markInterrupted (state : State) (reason : EndReason) : M Outcome := do
  let now ← call .clock
  save (interrupted state now reason)
  let _ ← call .clearStopRequest
  pure .completed

/-- What is recorded of an announcement changes. -/
def tell (state : State) (key : AnnounceKey) (a : Announced) : State :=
  { state with announce := fun k => if k = key then some a else state.announce k }

/-- `_announce`: tried once for a request, recorded before and after. -/
def announce (state : State) (key : AnnounceKey) : M State :=
  match state.rotation_request_id with
  | none => pure state
  | some request =>
    if state.announce key = some (.tried request) then pure state
    else do
      let tried := tell state key (.tried request)
      save tried
      let sent ← call (.announce request key)
      let done := tell tried key (.done request (sent.getD (.failed, .failed)).1 (sent.getD (.failed, .failed)).2)
      save done
      pure done

def announceResult (state : State) : M State := do
  if ← call .loadResult then announce state .result else pure state

/-! ## The start -/

/-- The write-ahead state of a new request; none when the store is busy. -/
def newState (request : RequestId) : M (Option State) := do
  match ← orRaise (call .canonical) with
  | none => pure none
  | some canonical =>
    let source ← source canonical
    require (source.all fun i => i.game ≠ VIEW_NAME) "puyo program view has no matching corner owner"
    let now ← call .clock
    pure (some
      { status := .starting
        rotation_request_id := some request
        start_request_id := some request
        switch_request_id := some request
        previous_game := source.map ActiveIdentity.game
        previous_runtime_identity := source
        requested_at := some now })

/-- The identity of the view that a succeeded start brought up, when result and receipt agree on it. -/
def startedIdentity (request : RequestId) (result : SwitchResult) : M ActiveIdentity := do
  let invalid {α : Type} : M α := fail " start receipt identity is invalid"
  match result.receipt.bind fun r => (resultOf r).map fun body => (r, body) with
  | none => invalid
  | some (receipt, status, body) =>
    if status = .succeeded ∧ receipt.target = some VIEW_NAME ∧ (receipt.operation = .start ∨ receipt.operation = .switch) ∧
        body.requestId = some request ∧ body.status = .succeeded ∧ body.toGame = some VIEW_NAME then
      match activeRuntime body with
      | some i =>
        if i.game = VIEW_NAME ∧ result.requestId = some request ∧ result.toGame = some VIEW_NAME ∧
            result.generation = some i.id.generation ∧ receipt.generation = i.id.generation then pure i
        else fail " start result identity does not match receipt"
      | none => fail " start result identity does not match receipt"
    else invalid

/-- The state of a view that has come up. -/
def running (state : State) (i : ActiveIdentity) (started duration : ℚ) : State :=
  { state with
    switch_request_id := none
    switch_status := none
    starting_runtime_identity := none
    status := .active
    puyo_program_runtime_identity := some i
    started_at := some started
    ends_at := some (started + duration * 60) }

/-- The state of a start that is to be asked for again. -/
def pendingStart (state : State) (status : SwitchStatus) (i : Option ActiveIdentity) : State :=
  { state with status := .starting, switch_status := some status, starting_runtime_identity := i.or state.starting_runtime_identity }

def failedStart (state : State) (now : ℚ) (result : SwitchResult) : State :=
  { state with status := .failed, completed_at := some now, last_error_code := some (result.errorCode.getD "switch_failed") }

def startCall (state : State) (request : RequestId) : SwitchCall :=
  match state.previous_runtime_identity with
  | none => .start VIEW_NAME request
  | some source => .switch VIEW_NAME request source

/-- A start that has succeeded: the canonical state shows its view, or an operator has moved on, or it is asked for again. -/
def confirmStart (duration : ℚ) (state : State) (i : ActiveIdentity) : Option Canonical → M (Except Outcome State)
  | none => do
    save (pendingStart state .inProgress (some i))
    pure (.error .queued)
  | some canonical =>
    if (canonical.phase = .ready || canonical.phase = .draining) && matchesActive canonical i then do
      -- the time of the receipt, or the clock
      let started ← call .clock
      save (running state i started duration)
      let announced ← announce (running state i started duration) .start
      pure (if canonical.phase = .draining then .error .queued else .ok announced)
    else if stable canonical then do
      let outcome ← markInterrupted state .operator_moved_after_start
      pure (.error outcome)
    else do
      save (pendingStart state .inProgress (some i))
      pure (.error .queued)

/-- `_dispatch_start`: an outcome, or the state of a run that is active and to be waited for. -/
def dispatchStart (duration : ℚ) (state : State) : M (Except Outcome State) := do
  match state.start_request_id with
  | none => fail " start request owner is invalid"
  | some request => do
    require (state.rotation_request_id = some request) " start request owner is invalid"
    let result ← orRaise (call (.dispatch request (startCall state request)))
    if result.status ∈ PENDING_SWITCH_STATUSES then do
      save (pendingStart state result.status none)
      pure (.error .queued)
    else if result.status ≠ .succeeded then do
      let now ← call .clock
      save (failedStart state now result)
      fail " view start did not succeed"
    else do
      let i ← startedIdentity request result
      let canonical ← orRaise (call .canonical)
      confirmStart duration state i canonical

/-! ## The restore -/

def restoredOwnerMatches (state : State) (canonical : Canonical) (result : Result) : Bool :=
  match state.previous_game with
  | none => result.operation = .stop && canonical.phase = .idle && canonical.active.isNone && stable canonical
  | some previous =>
    result.operation = .switch && canonical.phase = .ready && stable canonical &&
      canonical.active.any fun active =>
        active.spec.game = previous && result.generation = some active.generation &&
          activeRuntime result = some (identity active)

def restoreResult (state : State) (canonical : Canonical) (receipt : Option Receipt) : Bool :=
  match receipt.bind resultOf with
  | some (_, result) =>
    result.fromGame = some VIEW_NAME && result.toGame = state.previous_game && restoredOwnerMatches state canonical result
  | none => false

def restoreReceiptFinished (state : State) (canonical : Canonical) : M Bool :=
  match state.restore_request_id with
  | none => pure false
  | some request => do
    match ← call (.receipt request) with
    | .error _ => pure false
    | .ok receipt =>
      match receipt.bind resultOf with
      | some (status, result) =>
        pure (status = .succeeded && result.status = .succeeded && restoreResult state canonical receipt)
      | none => pure false

def completed (state : State) (now : ℚ) (reason : Option EndReason) (canonical : Canonical) : State :=
  { state with
    status := .completed
    completed_at := some now
    end_reason := reason
    restored_runtime_identity := canonical.active.map identity
    switch_request_id := none
    switch_status := none }

/-- The state of a run whose restore is asked for. -/
def restoringState (state : State) (now : ℚ) (reason : EndReason) (request : RequestId) : State :=
  { state with
    status := .restoring
    restore_requested_at := some now
    end_reason := some reason
    restore_request_id := some request
    switch_request_id := some request }

/-- The state with the request for its restore, which is saved once. -/
def restoring (state : State) (reason : EndReason) : M State :=
  if state.status = .restoring then pure state
  else do
    let now ← call .clock
    let request ← call .newRequestId
    save (restoringState state now reason request)
    pure (restoringState state now reason request)

def pendingRestore (state : State) (status : SwitchStatus) : State := { state with status := .restoring, switch_status := some status }

def failedRestore (state : State) (result : SwitchResult) : State :=
  { state with status := .restoring, last_error_code := result.errorCode }

def restoreCall (state : State) (request : RequestId) (i : ActiveIdentity) : SwitchCall :=
  match state.previous_game with
  | none => .stop request i
  | some previous => .switch previous request i

/-- A restore that has succeeded. -/
def confirmRestore (state : State) (result : SwitchResult) : Option Canonical → M Outcome
  | none => do
    save (pendingRestore state .queued)
    pure .queued
  | some canonical => do
    require (restoreResult state canonical result.receipt) " restore result has no matching canonical owner"
    let now ← call .clock
    save (completed state now state.end_reason canonical)
    let _ ← announceResult (completed state now state.end_reason canonical)
    let _ ← call .clearStopRequest
    pure .completed

def dispatchRestore (state : State) (i : ActiveIdentity) (run request : RequestId) : M Outcome := do
  let result ← orRaise (call (.dispatch run (restoreCall state request i)))
  if result.status ∈ PENDING_SWITCH_STATUSES then do
    save (pendingRestore state result.status)
    pure .queued
  else if result.status = .failed ∧ result.errorCode = some "source_fence_lost" then
    markInterrupted state .operator_moved_before_restore
  else if result.status ≠ .succeeded then do
    save (failedRestore state result)
    fail " runtime restore did not succeed"
  else do
    let canonical ← orRaise (call .canonical)
    confirmRestore state result canonical

/-- A restore, from the canonical state: it is over, or it is asked for while the view is on screen. -/
def restoreFrom (state : State) (i : ActiveIdentity) (run request : RequestId) (canonical : Canonical) : M Outcome := do
  if ← restoreReceiptFinished state canonical then do
    let now ← call .clock
    save (completed state now state.end_reason canonical)
    let _ ← call .clearStopRequest
    pure .completed
  else if matchesActive canonical i && (canonical.phase = .draining || stable canonical) then dispatchRestore state i run request
  else if stable canonical then markInterrupted state .operator_moved_before_restore
  else fail " restore source is not the owned runtime"

def restore (state : State) (reason : EndReason) : M Outcome := do
  match state.puyo_program_runtime_identity, state.rotation_request_id with
  | some i, some run => do
    require (i.game = VIEW_NAME) " runtime owner identity is missing before restore"
    let state ← restoring state reason
    match state.restore_request_id with
    | none => fail " restore request owner is invalid"
    | some request => do
      require (state.switch_request_id = some request) " restore request owner is invalid"
      match ← orRaise (call .canonical) with
      | none => pure .queued
      | some canonical => restoreFrom state i run request canonical
  | _, _ => fail " runtime owner identity is missing before restore"

/-! ## Waiting -/

/-- The rounds of `_wait_and_restore`. -/
def waitLoop (poll : ℚ) (run : RequestId) (i : ActiveIdentity) (state : State) : ℕ → M Outcome
  | 0 => .raise .unended
  | rounds + 1 => do
    if ← call (.stopRequested run) then restore state .manual
    else
      match ← orRaise (call .canonical) with
      | none => do
        let now ← call .clock
        call (.sleep (min poll (state.ends_at.elim poll fun ends => max (1 / 20) (ends - now))))
        waitLoop poll run i state rounds
      | some canonical =>
        if canonical.phase = .draining ∧ matchesActive canonical i then pure .queued
        else if (canonical.phase = .stopping ∨ canonical.phase = .starting ∨ canonical.phase = .rollingBack) ∧
            i ∈ (canonical.active.toList ++ canonical.previous.toList ++ canonical.candidate.toList).map identity then pure .queued
        else if !stable canonical then fail " runtime ownership is in an unsafe switch phase"
        else if !matchesActive canonical i then markInterrupted state .operator_moved_during
        else
          match state.ends_at with
          | none => fail " end time is invalid"
          | some ends => do
            require (0 ≤ ends) " end time is invalid"
            let now ← call .clock
            if ends - now ≤ 0 then restore state .duration
            else do
              call (.sleep (min poll (ends - now)))
              waitLoop poll run i state rounds

def waitAndRestore (poll : ℚ) (rounds : ℕ) (state : State) : M Outcome := do
  match state.puyo_program_runtime_identity, state.rotation_request_id with
  | some i, some run => do
    require (i.game = VIEW_NAME) " runtime owner identity is missing"
    waitLoop poll run i state rounds
  | _, _ => fail " runtime owner identity is missing"

/-! ## The calls of the rotation -/

structure Config where
  duration : ℚ
  poll : ℚ

def dispatchAndWait (cfg : Config) (rounds : ℕ) (state : State) : M Outcome := do
  match ← dispatchStart cfg.duration state with
  | .error outcome => pure outcome
  | .ok state => waitAndRestore cfg.poll rounds state

/-- A start that goes on; a stop request ends it before the game switch has a receipt. -/
def resumeStart (cfg : Config) (rounds : ℕ) (request : RequestId) (state : State) : M Outcome := do
  if ← call (.stopRequested request) then
    match state.switch_request_id with
    | none => fail " start owner has no matching switch request"
    | some switch => do
      require (state.start_request_id = some switch) " start owner has no matching switch request"
      match ← call (.receipt switch) with
      | .error _ => fail " start receipt cannot be verified"
      | .ok none => markInterrupted state .operator_stopped_before_start
      | .ok (some _) => dispatchAndWait cfg rounds state
  else dispatchAndWait cfg rounds state

def runRotation (cfg : Config) (rounds : ℕ) (request : RequestId) : M Outcome := do
  let state ← orRaise (call .readState)
  if state.rotation_request_id = some request then
    match state.status with
    | .completed | .interrupted => pure .completed
    | .starting => resumeStart cfg rounds request state
    | .active => waitAndRestore cfg.poll rounds state
    | .restoring => restore state .duration
    | _ => fail " rotation owner needs recovery"
  else do
    require state.status.released "another  execution owns the state"
    match ← newState request with
    | none => pure .queued
    | some state =>
      if ← call (.stopRequested request) then markInterrupted state .operator_stopped_before_start
      else do
        save state
        dispatchAndWait cfg rounds state

/-! ## The reconcilers -/

def ROLLBACK_ERROR_CODES : List String :=
  ["agent_start_failed", "prepare_failed", "quiesce_failed", "readiness_timeout", "start_failed", "timeout"]

/-- The generation that a rollback has restored. -/
def restoredGeneration (r : Result) : Option ℕ :=
  match r.extra with
  | .restored generation => some generation
  | _ => none

/-- What a receipt and the canonical state prove: this view has never started, and its start is over. -/
def neverStarted (state : State) (request : RequestId) (receipt : Receipt) (canonical : Canonical) : Bool :=
  match resultOf receipt with
  | none => false
  | some (status, result) =>
    (receipt.operation = .start || receipt.operation = .switch) && receipt.target = some VIEW_NAME &&
    result.requestId = some request && result.toGame = some VIEW_NAME && status ≠ .succeeded &&
    (state.status ≠ .failed || state.last_error_code = result.errorCode) &&
    if status = .rolledBack then
      result.status = .rolledBack && result.fromGame = state.previous_game &&
      result.errorCode.any (· ∈ ROLLBACK_ERROR_CODES) && result.generation = some receipt.generation &&
      result.cleanupPending ≠ some true && canonical.phase = .ready && stable canonical &&
      canonical.active.any fun active =>
        some active.spec.game = state.previous_game && (restoredGeneration result).any (· ≤ active.generation)
    else if result.errorCode = some "source_fence_lost" then
      stable canonical && (canonical.active.all fun active => active.spec.game ≠ VIEW_NAME) &&
      (state.previous_runtime_identity.isSome || state.previous_game.isNone)
    else if result.errorCode = some "quiesce_failed" then
      stable canonical && canonical.active.any fun active => state.previous_runtime_identity = some (identity active)
    else if result.errorCode = some "rollback_failed" then
      result.status = .failed && (result.fromGame.isNone || result.fromGame = state.previous_game) && stable canonical &&
      canonical.active.any fun active =>
        some active.spec.game = state.previous_game &&
          state.previous_runtime_identity.all fun previous => previous.id.generation ≤ active.generation
    else false

/-- `except (…): return False`, where `caught` tells which errors of the game switch are among them. -/
def orFalse (caught : GameSwitch.Exc → Bool) (x : M Bool) : M Bool := do
  match ← x.attempt with
  | .ok b => pure b
  | .error (.switch e) => if caught e then pure false else .raise (.switch e)
  | .error _ => pure false

def reconcileFailedStart (request : RequestId) : M Bool := orFalse (fun e => e.kind = .busy) do
  if ← call .lockStore then do
    let state ← orRaise (call .readState)
    if (state.status = .starting ∨ state.status = .failed) ∧ state.rotation_request_id = some request ∧
        state.start_request_id = some request ∧ state.switch_request_id = some request then do
      let receipt ← orRaise (call (.receipt request))
      let canonical ← orRaise (call .loadCanonical)
      match receipt, canonical with
      | some receipt, some canonical =>
        if neverStarted state request receipt canonical then do
          let now ← call .clock
          save (interrupted state (state.completed_at.getD now) .switch_terminal_before_corner_active)
          let _ ← call .clearStopRequest
          pure true
        else pure false
      | _, _ => pure false
    else pure false
  else pure false

def settled (state : State) (now : ℚ) : State :=
  { state with
    status := .interrupted
    completed_at := some (state.completed_at.getD now)
    end_reason := some .released_failure_before_retry }

def settleReleasedFailure (request : RequestId) : M Bool := orFalse (fun _ => true) do
  if ← call .lockStore then do
    let state ← orRaise (call .readState)
    if state.status = .failed ∧ state.rotation_request_id = some request ∧ state.started_at = none ∧
        state.puyo_program_runtime_identity = none then do
      match ← orRaise (call .loadCanonical) with
      | none => pure false
      | some canonical =>
        if stable canonical ∧ canonical.operation = none ∧ canonical.requestId = none ∧ canonical.deadlineAt = none ∧
            canonical.active.any (fun active => active.spec.game ≠ VIEW_NAME) = true then do
          let receipt ← orRaise (call (.receipt request))
          if receipt.all (fun r => r.status.isTerminal) = true then do
            let queued ← orRaise (call .queued)
            if request ∈ queued then pure false
            else do
              let now ← call .clock
              save (settled state now)
              let _ ← call .clearStopRequest
              pure true
          else pure false
        else pure false
    else pure false
  else pure false

end Docich.PuyoProgram
