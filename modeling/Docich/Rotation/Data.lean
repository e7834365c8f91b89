import Mathlib.Algebra.Order.Ring.Unbundled.Rat

/-!
# The rotation ledger

- `RequestId`, `Request`, `Pending`, `Manual`: the requests for a corner, and the three places of a ledger for one;
- `Ledger`: what `corner_rotation.json` stores and the rotation reads again, and `Ledger.checked`, what `load` accepts;
- `Corner`, `Manager`: the catalog and the policy a manager is built with;
- `Observation`, `Plane`: what an adapter and the shared program slot tell about a request.

A time is the number of seconds since the epoch. Fields that only the dashboard reads are left out.
-/

namespace Docich.Rotation

abbrev Time := ℚ

/-! ## Exceptions -/

inductive ErrorKind
  | adapterState
  | adapterTimestamp
  | catalogMismatch
  | executionError
  | executionUnverified
  | invalidState
  | unexpected
  deriving DecidableEq

/-- `LEDGER_ERROR_KINDS`. -/
def ErrorKind.ledger : ErrorKind → Bool
  | .adapterState | .adapterTimestamp | .catalogMismatch | .invalidState => true
  | .executionError | .executionUnverified | .unexpected => false

/-- An exception, with what `_error_kind` makes of it. -/
structure Failure where
  text : String
  kind : ErrorKind := .invalidState
  reason_code : Option String := none
  deriving DecidableEq

def timestamp (value : Time) : Except Failure Time :=
  if value < 0 then .error { text := "invalid timestamp" } else .ok value

/-! ## Requests -/

/-- A random identifier, or the one that a slot of the ledger has. -/
inductive RequestId
  | random (n : Nat)
  | named (seed : String) (slot : Nat) (corner : String)
  deriving DecidableEq

structure Request where
  corner : String
  selected_at : Time
  request_id : RequestId
  trigger_at : Option Time := none
  resume_latest : Bool := false
  new_game : Bool := false
  deriving DecidableEq

/-- The times of a request that are read with `timestamp`. -/
def Request.times (r : Request) : List Time := r.selected_at :: r.trigger_at.toList

/-- The checks of `_read_manual_queue` on a stored request. -/
def Request.checked (r : Request) : Except Failure Unit :=
  if r.times.any (· < 0) then .error { text := "invalid timestamp" } else .ok ()

inductive Phase
  | selected
  | dispatched
  deriving DecidableEq

/-- The request that holds the slot; `manual` is `source == "manual"`. -/
structure Pending extends Request where
  phase : Phase
  manual : Bool
  deriving DecidableEq

/-- The reservation of a manual entry; `capture_profile_expires_at` is there when it has the capture profile. -/
structure Manual where
  corner : String
  selected_at : Time
  request_id : RequestId
  state_file : String
  capture_profile_expires_at : Option Time := none
  deriving DecidableEq

/-- What the reservation reads as where a request is expected. -/
def Manual.toRequest (m : Manual) : Request :=
  { corner := m.corner, selected_at := m.selected_at, request_id := m.request_id }

/-! ## Ledger -/

inductive Source
  | legacy
  | execution
  | reservation
  | manualReservation
  | completion
  | manualCompletion
  | failure
  deriving DecidableEq

/-- A row of the history. -/
structure Use where
  corner : String
  at_ : Time
  source : Source
  deriving DecidableEq

inductive Status
  | ready
  | waiting
  | running
  | recovery_required
  deriving DecidableEq

inductive Resolution
  | released_unverified
  | recovery_required
  deriving DecidableEq

/-- What an anomaly row is about: a request, or something with another name. -/
inductive Subject
  | request (id : RequestId)
  | other (name : String)
  deriving DecidableEq

structure FailedCorner where
  corner : String
  request_id : Subject
  at_ : Time
  resolution : Resolution
  reason_code : String
  error_kind : ErrorKind
  deriving DecidableEq

structure Released where
  corner : String
  request_id : RequestId
  at_ : Time
  deriving DecidableEq

structure AutoRestore where
  request_id : RequestId
  corner : String
  attempts : Nat
  next_attempt_at : Time
  exhausted_recorded : Bool
  deriving DecidableEq

structure LastResult where
  corner : String
  request_id : RequestId
  status : String
  at_ : Time
  deriving DecidableEq

structure Known where
  key : String
  id : String
  adapter : String
  game : String
  deriving DecidableEq

structure Ledger where
  seed : String
  slot : Nat
  last_seen_at : Time
  next_due_at : Time
  last_slot_at : Option Time := none
  history : List Use := []
  pending : Option Pending := none
  manual_pending : Option Manual := none
  queued_manual : Option Request := none
  status : Status := .ready
  reason : Option String := none
  error_kind : Option ErrorKind := none
  clock_hold_until : Option Time := none
  interval_seconds : Option Time := none
  last_result : Option LastResult := none
  known_corners : List Known := []
  failed_corners : List FailedCorner := []
  released_requests : List Released := []
  auto_restore : Option AutoRestore := none
  deriving DecidableEq

/-- The times of a ledger that `load` reads with `timestamp`. -/
def Ledger.times (s : Ledger) : List Time :=
  [s.next_due_at, s.last_seen_at] ++ s.last_slot_at.toList ++ s.history.map Use.at_ ++
    (s.pending.map fun p => p.selected_at).toList ++
    (s.manual_pending.map fun m => m.selected_at :: m.capture_profile_expires_at.toList).getD [] ++
    (s.queued_manual.map Request.times).getD []

/-- The checks of `load` on a stored ledger. -/
def Ledger.checked (s : Ledger) : Except Failure Unit :=
  if s.seed = "" then .error { text := "invalid rotation state" }
  else if s.status = .running ∧ s.pending = none ∧ s.manual_pending = none then
    .error { text := "running state missing request owner" }
  else if s.times.any (· < 0) then .error { text := "invalid timestamp" }
  else .ok ()

/-! ## Managers -/

structure Corner where
  id : String
  adapter : String
  game : String
  enabled : Bool := true
  paused : Bool := false
  manual_only : Bool := false

inductive ScheduleMode
  | interval
  | queue
  deriving DecidableEq

/-- What a manager is built with. `rank` is the digest that `_rank` takes, read as a number. -/
structure Manager where
  catalog : List Corner
  schedule_mode : ScheduleMode
  cooldown_seconds : Time
  configured_interval : Option Time
  rank : String → Nat → String → Nat

namespace Manager

/-- The corner of an adapter of the manager. -/
def adapter? (m : Manager) (corner_id : String) : Option Corner := m.catalog.find? fun c => c.id = corner_id

/-- `corner_id in self.adapters`. -/
def has (m : Manager) (corner_id : String) : Bool := (m.adapter? corner_id).isSome

def choices (m : Manager) (game : String) : List String := (m.catalog.filter fun c => c.game = game).map Corner.id

end Manager

def DAY : Time := 86400

/-! ## Observations -/

inductive CornerStatus
  | waiting
  | starting
  | active
  | restoring
  | preparing
  | recovery_required
  | failed
  | idle
  | completed
  | interrupted
  | expired
  | unknown
  deriving DecidableEq

/-- `BUSY`. -/
def CornerStatus.busy : CornerStatus → Bool
  | .waiting | .starting | .active | .restoring | .preparing | .recovery_required | .failed => true
  | .idle | .completed | .interrupted | .expired | .unknown => false

/-- `TERMINAL`. -/
def CornerStatus.terminal : CornerStatus → Bool
  | .idle | .completed | .interrupted | .expired => true
  | .waiting | .starting | .active | .restoring | .preparing | .recovery_required | .failed | .unknown => false

/-- One state file of a corner. -/
structure Observation where
  rotation_request_id : Option RequestId := none
  status : CornerStatus := .idle
  started_at : Option Time := none
  completed_at : Option Time := none
  released_settle_pending : Option (RequestId × String) := none

/-- The observations of one request. -/
def ownedBy (id : RequestId) (raws : List Observation) : List Observation :=
  raws.filter fun raw => raw.rotation_request_id = some id

inductive PlanePhase
  | idle
  | ready
  | other
  deriving DecidableEq

structure ActiveRuntime where
  game : String
  runtime_id : String
  lease_id : String
  generation : Int

/-- What the store of the shared program slot says, with the receipt of one request. -/
structure Plane where
  phase : PlanePhase
  operation : Bool
  request_id : Bool
  deadline_at : Bool
  candidate : Bool
  previous : Bool
  retiring : Bool
  active : Option ActiveRuntime
  /-- Whether the receipt of the request is terminal, where there is one. -/
  receipt_terminal : Option Bool
  queued : List RequestId

end Docich.Rotation
