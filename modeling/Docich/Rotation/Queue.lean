import Docich.Rotation.Tick

/-!
# Manual requests

- `queueManual`: queue one request of the owner, at once or not before a trigger;
- `cancelScheduledManual`: cancel a scheduled request that is still in the inbox;
- `Call`, `code`: the operations that processes run.

Both work on the inbox under its own lock and only read the ledger.
-/

namespace Docich.Rotation

open Durable.Locks.Work (throw get modify ofExcept handle fold locking)

/-- What `queue_manual` answers. -/
structure Queued where
  status : String
  corner : String
  request_id : RequestId
  trigger_at : Option Time
  deriving DecidableEq

/-! ## Queueing -/

/-- `self._read_manual_queue() or state.get("queued_manual")`. -/
def readQueued (state : Ledger) : Work (Option Request) := do
  let inbox ← readManualQueue
  pure (inbox.or state.queued_manual)

/-- A retry of the exact scheduled request finds it wherever it is by now. -/
def alreadyScheduled (m : Manager) (state : Ledger) (game : String) (requested : Option Time) :
    Work (Option Queued) := do
  match requested, m.choices game with
  | some trigger, [chosen] =>
    let queued ← readQueued state
    let existing := queued.or ((state.pending.filter Pending.manual).map Pending.toRequest)
    match existing with
    | some request =>
      if request.corner = chosen ∧ request.trigger_at = some trigger then
        pure (some { status := "scheduled", corner := chosen, request_id := request.request_id,
                     trigger_at := some trigger })
      else pure none
    | none => pure none
  | _, _ => pure none

/-- The reservation in the ledger that an immediate request for the corner joins. -/
def joinable (state : Ledger) (chosen : String) (requested : Option Time) : Option Request :=
  match state.manual_pending, state.pending with
  | some manual, _ => if requested = none ∧ manual.corner = chosen then some manual.toRequest else none
  | none, some p => if requested = none ∧ (p.manual ∨ p.corner = chosen) then some p.toRequest else none
  | none, none => none

/-- A new request is sealed first when it resumes a checkpoint, then put into the inbox. -/
def newRequest (now : Time) (chosen : String) (requested : Option Time) (resume_latest new_game : Bool) :
    Work Request := do
  let id ← uuid4
  let request : Request :=
    { corner := chosen, selected_at := now, request_id := id, trigger_at := requested, new_game := new_game }
  if resume_latest then
    let recovered ← recoverPrepared chosen
    let request := recovered.getD { request with resume_latest := true }
    prepare request
    writeManualQueue request
    pure request
  else
    writeManualQueue request
    pure request

def reject (text reason_code : String) : Failure := { text := text, reason_code := some reason_code }

/-- The request for the chosen corner: the one that is there, or a new one. -/
def requestFor (state : Ledger) (now : Time) (chosen : String) (requested : Option Time)
    (resume_latest new_game : Bool) : Work Request := do
  let queued ← readQueued state
  match queued.or (joinable state chosen requested) with
  | some request =>
    if request.corner ≠ chosen ∨ request.trigger_at ≠ requested ∨ request.resume_latest ≠ resume_latest ∨
        request.new_game ≠ new_game then
      throw (reject "another manual corner or schedule is already queued" "manual_queue_conflict")
    else pure request
  | none => newRequest now chosen requested resume_latest new_game

def queueLocked (m : Manager) (game : String) (trigger_at : Option Time) (resume_latest new_game : Bool) :
    Work Queued := do
  let now ← clock
  if trigger_at.any (· < 0) then throw (reject "invalid scheduled manual trigger" "invalid_scheduled_time")
  else
    let state ← load m now
    match ← alreadyScheduled m state game trigger_at with
    | some queued => pure queued
    | none =>
      if trigger_at.any (· < now) then throw (reject "scheduled manual trigger is in the past" "scheduled_time_past")
      else if state.status = .recovery_required then
        throw (reject "corner recovery required before manual reservation" "recovery_required")
      else if now < state.last_seen_at then throw (reject "clock regressed" "clock_regressed")
      else
        let selectable ← eligible m [] true
        match (m.choices game).filter selectable.contains with
        | [chosen] =>
          let request ← requestFor state now chosen trigger_at resume_latest new_game
          (if resume_latest then publish request else pure ())
          pure { status := if trigger_at.any (now < ·) then "scheduled" else "queued", corner := chosen,
                 request_id := request.request_id, trigger_at := trigger_at }
        | _ => throw (reject "no unique eligible manual corner" "hanjuku_not_eligible")

def queueManual (m : Manager) (game : String) (trigger_at : Option Time) (resume_latest new_game : Bool) :
    Work Queued := do
  if resume_latest ∧ (game ≠ "hanjuku-hero" ∨ trigger_at ≠ none) then
    throw (reject "invalid resume request" "invalid_value")
  else if new_game ∧ (game ≠ "hanjuku-hero" ∨ resume_latest ∨ trigger_at ≠ none) then
    throw (reject "invalid new game request" "invalid_value")
  else if !(← rotationEnabled) then throw (reject "common corner rotation is disabled" "rotation_disabled")
  else
    withInbox (queueLocked m game trigger_at resume_latest new_game)

/-! ## Cancelling -/

def cancelLocked (m : Manager) (game : String) : Work (String × Time) := do
  let now ← clock
  let state ← load m now
  match m.choices game with
  | [chosen] =>
    match ← readManualQueue with
    | none =>
      if state.queued_manual.any fun q => q.corner = chosen && q.trigger_at.isSome then
        throw (reject "scheduled manual request was already imported" "scheduled_request_imported")
      else throw (reject "scheduled manual request is not queued" "scheduled_request_missing")
    | some request =>
      match request.trigger_at with
      | some trigger =>
        if request.corner ≠ chosen then
          throw (reject "scheduled manual request does not match" "scheduled_request_missing")
        else
          unlinkManualQueue .cancelled
          pure (chosen, trigger)
      | none => throw (reject "scheduled manual request does not match" "scheduled_request_missing")
  | _ => throw (reject "scheduled manual corner is unavailable" "scheduled_request_missing")

def cancelScheduledManual (m : Manager) (game : String) : Work (String × Time) := do
  if !(← rotationEnabled) then throw (reject "common corner rotation is disabled" "rotation_disabled")
  else withInbox (cancelLocked m game)

/-! ## Processes -/

/-- An operation that a process runs, with the manager it has built. -/
inductive Call
  | tick (m : Manager)
  | recover (m : Manager)
  | queue_manual (m : Manager) (game : String) (trigger_at : Option Time) (resume_latest new_game : Bool)
  | cancel_scheduled_manual (m : Manager) (game : String)

inductive Answer
  | outcome (o : Outcome)
  | queued (q : Queued)
  | cancelled (corner : String) (trigger_at : Time)
  deriving DecidableEq

def Call.work : Call → Work Answer
  | .tick m => do pure (.outcome (← Rotation.tick m))
  | .recover m => do pure (.outcome (← Rotation.recover m))
  | .queue_manual m game trigger_at resume_latest new_game => do
    pure (.queued (← queueManual m game trigger_at resume_latest new_game))
  | .cancel_scheduled_manual m game => do
    let cancelled ← cancelScheduledManual m game
    pure (.cancelled cancelled.1 cancelled.2)

def code (k : Call) : Durable.Locks.LockProgram Lock Ask Ask.Answer (Ledger × Failure) (Ledger × Answer) :=
  k.work Work.blank

end Docich.Rotation
