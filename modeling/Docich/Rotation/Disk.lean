import Docich.Durable.Work
import Docich.Rotation.Data

/-!
# The files of the rotation and what surrounds them

- `Disk`: the ledger, the inbox of manual requests and the checkpoint request, with what has happened to requests so
  far: identifiers drawn, handed to the executor, cancelled;
- `Ask`: what a manager asks for, and `perform`, what may be answered and happen;
- `Work`: programs of a manager.

Files are replaced and removed atomically; the call may raise before or after. What adapters, the shared slot, clock and
configuration answer is arbitrary, but for `Honest`: an adapter carries the identifier of a request only once the
executor was called with it.
-/

namespace Docich.Rotation

open Durable.Locks (Held)

/-! ## Files -/

inductive CheckpointStatus
  | prepared
  | queued
  | claimed
  | verified
  | other

/-- `hanjuku_resume.json`. -/
structure Checkpoint where
  request_id : RequestId
  corner : String
  selected_at : Time
  status : CheckpointStatus
  explicit_resume : Bool

structure Disk where
  ledger : Option Ledger
  inbox : Option Request
  checkpoint : Option Checkpoint
  /-- Random identifiers drawn so far. -/
  drawn : List Nat
  /-- Requests the executor has been called with. -/
  executed : List RequestId
  /-- Requests that `cancel_scheduled_manual` has removed. -/
  cancelled : List RequestId

namespace Disk

/-- The manual request in the ledger. -/
def queued (d : Disk) : Option Request := d.ledger.bind Ledger.queued_manual

/-- The request that holds the slot in the ledger. -/
def pending (d : Disk) : Option Pending := d.ledger.bind Ledger.pending

end Disk

/-- A request waits: it is in the inbox, queued, or pending. -/
def Waiting (id : RequestId) (d : Disk) : Prop :=
  (∃ q, d.inbox = some q ∧ q.request_id = id) ∨ (∃ q, d.queued = some q ∧ q.request_id = id) ∨
    ∃ p, d.pending = some p ∧ p.request_id = id

/-! ## Requests of a manager -/

inductive Lock
  | rotation
  | inbox
  deriving DecidableEq

/-- Why the inbox file is removed. -/
inductive Removal
  | imported
  | cancelled

inductive Ask
  | clock
  | rotation_enabled
  | token
  | uuid4
  /-- `rotation` and `status` of `retro_corner.json`: earlier uses and the due time, or why they cannot be taken over. -/
  | legacy
  /-- Corners of state files older than the catalog. -/
  | legacy_corners
  | load
  | save (state : Ledger)
  | read_queue
  | write_queue (request : Request)
  | unlink_queue (why : Removal)
  | observations (corner : String)
  | reconcile_terminal_failures (corner : String)
  | resources_released (corner : String)
  | reconcile_failed_start (corner : String) (id : RequestId) (state_file : Option String)
  | settle_released_failure (corner : String) (id : RequestId)
  | release_program_owner (corner : String)
  | restore_runner (corner : String)
  | recover_failed_restore (corner : String)
  | recovery_guard (corner : String) (id : RequestId)
  | plane (corner game : String) (id : RequestId)
  | terminal_owner_absent (corner : String)
  | shares_state_file (corner other : String)
  | paused_file (corner : String)
  | eligible (corner : String)
  | run_rotation_file (corner : String)
  | expired_capture_unowned (corner state_file : String)
  | heartbeat (corner : String) (id : RequestId)
  | announced
  | execute (corner : String) (request : Request)
  | recover_prepared (corner : String)
  | prepare (request : Request)
  | publish (request : Request)

/-- What a request is answered: `Except` where the call can raise, `Option` where a hook or a file can be missing. -/
abbrev Ask.Answer : Ask → Type
  | .clock => Time
  | .rotation_enabled => Except Failure Bool
  | .token => String
  | .uuid4 => RequestId
  | .legacy => Except Failure (List Use × Option Time)
  | .legacy_corners => Except Failure (List Known)
  | .load => Except Failure (Option Ledger)
  | .save _ => Except Failure Unit
  | .read_queue => Except Failure (Option Request)
  | .write_queue _ => Except Failure Unit
  | .unlink_queue _ => Except Failure Unit
  | .observations _ => Except Failure (List Observation)
  | .reconcile_terminal_failures _ => Except Failure (Option Bool)
  | .resources_released _ => Except Failure (Option Bool)
  | .reconcile_failed_start _ _ _ => Except Failure (Option Bool)
  | .settle_released_failure _ _ => Option Bool
  | .release_program_owner _ => Unit
  | .restore_runner _ => Bool
  | .recover_failed_restore _ => Unit
  | .recovery_guard _ _ => Option (Except Failure Bool)
  | .plane _ _ _ => Option Plane
  | .terminal_owner_absent _ => Option String
  | .shares_state_file _ _ => Bool
  | .paused_file _ => Bool
  | .eligible _ => Bool
  | .run_rotation_file _ => Option String
  | .expired_capture_unowned _ _ => Bool
  | .heartbeat _ _ => Option Time
  | .announced => Option String
  | .execute _ _ => Except Failure String
  | .recover_prepared _ => Except Failure (Option Request)
  | .prepare _ => Except Failure Unit
  | .publish _ => Except Failure Unit

/-! ## What may happen -/

/-- An adapter carries no identifier of a request that waits for its first execution. -/
def Honest (d : Disk) : Except Failure (List Observation) → Prop
  | .ok raws => ∀ raw ∈ raws, ∀ id, raw.rotation_request_id = some id → Waiting id d → id ∈ d.executed
  | .error _ => True

/-- A write that may raise before or after it took place. -/
def Written (d new : Disk) (x : Except Failure Unit) (d' : Disk) : Prop := d' = new ∨ d' = d ∧ ∃ e, x = .error e

/-- The inbox file removed; a cancelled request is noted as such. -/
def Disk.unlinked (d : Disk) (why : Removal) : Disk :=
  match why, d.inbox with
  | .cancelled, some q => { d with inbox := none, cancelled := q.request_id :: d.cancelled }
  | _, _ => { d with inbox := none }

/-- The checkpoint request that an execution may leave: the one found, with any status, or one of its own request. -/
def Transferred (d : Disk) (id : RequestId) (c : Option Checkpoint) : Prop :=
  ∀ k, c = some k → k.request_id = id ∨ ∃ k₀, d.checkpoint = some k₀ ∧ k.request_id = k₀.request_id

/-- The checkpoint request that `prepare` seals. -/
def sealed (request : Request) : Checkpoint :=
  { request_id := request.request_id, corner := request.corner, selected_at := request.selected_at, status := .prepared,
    explicit_resume := request.resume_latest }

/-- What `recover_prepared` finds: nothing unless a request is prepared, else that request, or it raises. -/
def Recovered (d : Disk) (corner : String) : Except Failure (Option Request) → Prop
  | .ok none => ∀ k, d.checkpoint = some k → k.status ≠ .prepared
  | .ok (some r) => ∃ k, d.checkpoint = some k ∧ k.status = .prepared ∧ k.corner = corner ∧ k.explicit_resume = true ∧
      r = { corner := corner, selected_at := k.selected_at, request_id := k.request_id, resume_latest := true }
  | .error _ => True

/-- What `prepare` writes: nothing for the request that is already there, a sealed request where none is in progress. -/
def Prepared (d : Disk) (request : Request) : Except Failure Unit → Disk → Prop
  | .ok _, d' => (d' = d ∧ ∃ k, d.checkpoint = some k ∧ k.request_id = request.request_id) ∨
      d' = { d with checkpoint := some (sealed request) }
  | .error _, d' => d' = d ∨ d' = { d with checkpoint := some (sealed request) }

/-- What `publish` writes: the request that is there, as queued. -/
def Published (d : Disk) (request : Request) (d' : Disk) : Prop :=
  d' = d ∨ ∃ k, d.checkpoint = some k ∧ k.request_id = request.request_id ∧
    d' = { d with checkpoint := some { k with status := .queued } }

/-- What a request may be answered, and do. -/
def perform : (q : Ask) → Disk → q.Answer → Disk → Prop
  | .uuid4, d, x, d' => ∃ n, n ∉ d.drawn ∧ x = .random n ∧ d' = { d with drawn := n :: d.drawn }
  | .load, d, x, d' => d' = d ∧ ((∃ e, x = .error e) ∨ x = .ok d.ledger)
  | .save state, d, x, d' => Written d { d with ledger := some state } x d'
  | .read_queue, d, x, d' => d' = d ∧ ((∃ e, x = .error e) ∨ x = .ok d.inbox)
  | .write_queue request, d, x, d' => Written d { d with inbox := some request } x d'
  | .unlink_queue why, d, x, d' => Written d (d.unlinked why) x d'
  | .observations _, d, x, d' => d' = d ∧ Honest d x
  | .execute _ request, d, _, d' => ∃ c, Transferred d request.request_id c ∧
      d' = { d with executed := request.request_id :: d.executed, checkpoint := c }
  | .recover_prepared corner, d, x, d' => d' = d ∧ Recovered d corner x
  | .prepare request, d, x, d' => Prepared d request x d'
  | .publish request, d, _, d' => Published d request d'
  | _, d, _, d' => d' = d

/-- The rotation lock is only tried, the inbox lock is waited for. -/
def world : Durable.Locks.World Lock Ask Ask.Answer Disk where
  perform := perform
  tried := fun l => decide (l = .rotation)

/-! ## Programs -/

/-- A program of a manager. Its memory is the ledger it works on. -/
abbrev Work (α : Type) : Type := Durable.Locks.Work Lock Ask Ask.Answer Ledger Failure α

namespace Work

/-- The ledger before `load`: nothing reads it. -/
def blank : Ledger := { seed := "", slot := 0, last_seen_at := 0, next_due_at := 0 }

end Work

open Durable.Locks.Work (throw get modify ask ofExcept locking)

/-- `_manual_queue_lock`. The lock is waited for, so the refusal never comes. -/
def withInbox {α : Type} (body : Work α) : Work α := locking .inbox body (throw { text := "", kind := .unexpected })

section Calls

def clock : Work Time := do ofExcept (timestamp (← ask Ask.clock))

def rotationEnabled : Work Bool := do ofExcept (← ask Ask.rotation_enabled)

def token : Work String := ask Ask.token

def uuid4 : Work RequestId := ask Ask.uuid4

def legacy : Work (List Use × Option Time) := do ofExcept (← ask Ask.legacy)

def legacyCorners : Work (List Known) := do ofExcept (← ask Ask.legacy_corners)

def readLedger : Work (Option Ledger) := do ofExcept (← ask Ask.load)

def save (state : Ledger) : Work Unit := do ofExcept (← ask (Ask.save state))

def readManualQueue : Work (Option Request) := do
  match ← ofExcept (← ask Ask.read_queue) with
  | none => pure none
  | some request =>
    ofExcept request.checked
    pure (some request)

def writeManualQueue (request : Request) : Work Unit := do ofExcept (← ask (Ask.write_queue request))

def unlinkManualQueue (why : Removal) : Work Unit := do ofExcept (← ask (Ask.unlink_queue why))

variable (corner : String) (id : RequestId)

def tryObservations : Work (Except Failure (List Observation)) := ask (Ask.observations corner)

def observations : Work (List Observation) := do ofExcept (← tryObservations corner)

def reconcileTerminalFailures : Work (Option Bool) := do ofExcept (← ask (Ask.reconcile_terminal_failures corner))

def tryResourcesReleased : Work (Except Failure (Option Bool)) := ask (Ask.resources_released corner)

def resourcesReleased : Work (Option Bool) := do ofExcept (← tryResourcesReleased corner)

def adapterReconcileFailedStart (state_file : Option String) : Work (Option Bool) := do
  ofExcept (← ask (Ask.reconcile_failed_start corner id state_file))

def settleReleasedFailure : Work (Option Bool) := ask (Ask.settle_released_failure corner id)

def releaseProgramOwner : Work Unit := ask (Ask.release_program_owner corner)

def restoreRunner : Work Bool := ask (Ask.restore_runner corner)

def recoverFailedRestore : Work Unit := ask (Ask.recover_failed_restore corner)

def recoveryGuard : Work (Option (Except Failure Bool)) := ask (Ask.recovery_guard corner id)

def plane (game : String) : Work (Option Plane) := ask (Ask.plane corner game id)

def terminalOwnerAbsent : Work (Option String) := ask (Ask.terminal_owner_absent corner)

def sharesStateFile (other : String) : Work Bool := ask (Ask.shares_state_file corner other)

def pausedFile : Work Bool := ask (Ask.paused_file corner)

def adapterEligible : Work Bool := ask (Ask.eligible corner)

def runRotationFile : Work (Option String) := ask (Ask.run_rotation_file corner)

def expiredCaptureUnowned (state_file : String) : Work Bool := ask (Ask.expired_capture_unowned corner state_file)

def heartbeat : Work (Option Time) := ask (Ask.heartbeat corner id)

def announced : Work (Option String) := ask Ask.announced

def execute (request : Request) : Work String := do ofExcept (← ask (Ask.execute corner request))

def recoverPrepared : Work (Option Request) := do ofExcept (← ask (Ask.recover_prepared corner))

def prepare (request : Request) : Work Unit := do ofExcept (← ask (Ask.prepare request))

def publish (request : Request) : Work Unit := do ofExcept (← ask (Ask.publish request))

end Calls

/-- Replace fields of the ledger in memory. -/
abbrev update (f : Ledger → Ledger) : Work Unit := modify f

/-- Write the ledger in memory to its file. -/
def saveState : Work Unit := do save (← get)

end Docich.Rotation
