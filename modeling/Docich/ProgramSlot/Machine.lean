import Docich.Paired
import Docich.Ranked.Stable
import Mathlib.Algebra.Order.Field.Rat

/-!
# The program slot

Corners run `_program_slot` or `program_slot` on one root, each step one access to the lock, the registry, a queue file or
the clock. A corner is the stem of its state file. `advance` is one step of a corner, as far as it reads what is shared;
`Sys.act` is one step of the system.

What a corner observes of another's state file, whether the boundary is ready, whether the deadline is over, and where a
call raises, is the input of a step. The lock may be refused at any time, since others take it for a moment.
-/

namespace Docich.ProgramSlot

open Ranked (sortBy)

inductive Status
  | waiting
  | waiting_turn
  | waiting_boundary
  | running
  | done
  | expired
  | error
  | cancelled
  | other
  deriving DecidableEq

/-- A queue file: the status, and what `float` makes of the time of the request; none when that raises. -/
structure Entry where
  status : Status
  requested_at : Option ℚ
  deriving DecidableEq

/-- What is read of a file that is not there. -/
def Entry.missing : Entry := ⟨.other, some 0⟩

/-- The two entrances, with the status that each writes to the queue. -/
inductive Entrance
  | _program_slot
  | program_slot

def Entrance.queue_status : Entrance → Status
  | ._program_slot => .waiting
  | .program_slot => .waiting_turn

/-- An exception other than the one of the deadline: a `ProgramRegistryError`, or another. -/
inductive Failure
  | registry
  | other
  deriving DecidableEq

/-- How the `with` of the lock is left. -/
inductive Exit
  | again
  | returned
  | raised (e : Failure)
  deriving DecidableEq

/-- Where a corner is in its run. -/
inductive Loc (C : Type)
  | idle
  | announce
  | boundary
  | boundaryTime
  | boundarySleep
  | boundaryExpired
  | boundaryFailed (e : Failure)
  | enqueue
  | lock
  | owner
  | listing
  | looking (rest : List C)
  | ready
  | register
  | running
  | inside
  | left (raised : Bool)
  | unlock (exit : Exit)
  | time
  | sleep
  | expire
  | handler (e : Failure)
  | ended
  | dead
  deriving DecidableEq

/-- An owner that the registry names: the state file of a corner, or another path. -/
inductive Owner (C P : Type)
  | corner (c : C)
  | path (p : P)
  deriving DecidableEq

inductive Registry (C P : Type)
  | absent
  | malformed
  | owner (o : Owner C P)
  deriving DecidableEq

/-- A run of a corner, with its arguments and what it last observed of an owner: whether its status is busy. -/
structure Proc (C P : Type) where
  loc : Loc C
  entrance : Entrance
  requested_at : ℚ
  wait_boundary : Bool
  observed : Option (Owner C P × Bool)

variable {C P : Type}

def Proc.none : Proc C P := ⟨.idle, ._program_slot, 0, false, .none⟩

def Proc.at (p : Proc C P) (loc : Loc C) : Proc C P := { p with loc := loc }

/-- The queue files, the registry, the holder of the lock, and the corners. -/
structure Sys (C P : Type) where
  queue : List (C × Entry)
  registry : Registry C P
  lock : Option C
  procs : C → Proc C P

/-- What a step meets. -/
inductive Input
  | proceed
  | answer (b : Bool)
  | raise (e : Failure)

/-- What a step of a corner does. -/
structure Outcome (C P : Type) where
  proc : Proc C P
  entry : Option Entry
  lock : Option Bool
  register : Bool

section Step

variable [DecidableEq C]

def Sys.entry (s : Sys C P) (c : C) : Option Entry := s.queue.lookup c

def put (queue : List (C × Entry)) (c : C) (e : Entry) : List (C × Entry) := (c, e) :: queue.filter (·.1 ≠ c)

/-- `_queue_write` of a status; other fields of the file stay. -/
def Sys.withStatus (s : Sys C P) (c : C) (status : Status) : Entry :=
  { (s.entry c).getD .missing with status := status }

/-- A waiting entry with an earlier request. -/
def Entry.isEarlier (e : Entry) (requested_at : ℚ) : Bool :=
  (e.status = .waiting || e.status = .waiting_turn) && e.requested_at.any (· < requested_at)

/-- The names of the queue files, sorted. -/
def Sys.names [LinearOrder C] (s : Sys C P) : List C := sortBy id (s.queue.map Prod.fst)

def move (p : Proc C P) (loc : Loc C) : Option (Outcome C P) := some ⟨p.at loc, none, none, false⟩

def write (p : Proc C P) (loc : Loc C) (e : Entry) : Option (Outcome C P) := some ⟨p.at loc, some e, none, false⟩

end Step

section Advance

variable [LinearOrder C]

/-- `_owner_free`, with what is observed of an owner that is another's: that its status is busy or not, a file that is
missing counting as not, or an exception. -/
def ownerFree [DecidableEq P] (s : Sys C P) (c : C) (p : Proc C P) (input : Input) : Option (Outcome C P) :=
  match s.registry, input with
  | .absent, .proceed => move p .listing
  | .malformed, .raise e => move p (.unlock (.raised e))
  | .owner o, .proceed => if o = .corner c then move p .listing else none
  | .owner o, .answer busy =>
    if o = .corner c then none
    else some ⟨{ p with loc := if busy then .unlock .again else .listing, observed := some (o, busy) }, none, none, false⟩
  | .owner _, .raise e => move p (.unlock (.raised e))
  | _, _ => none

/-- One step of a corner; none where the input does not fit. -/
def advance [DecidableEq P] (s : Sys C P) (c : C) (input : Input) : Option (Outcome C P) :=
  let p := s.procs c
  match p.loc, input with
  -- `program_slot`
  | .announce, .proceed =>
    write p (if p.wait_boundary then .boundary else .enqueue) ⟨.waiting_boundary, some p.requested_at⟩
  | .boundary, .answer ready => move p (if ready then .enqueue else .boundaryTime)
  | .boundary, .raise e => move p (.boundaryFailed e)
  | .boundaryTime, .answer late => move p (if late then .boundaryExpired else .boundarySleep)
  | .boundaryTime, .raise e => move p (.boundaryFailed e)
  | .boundarySleep, .proceed => move p .boundary
  | .boundarySleep, .raise e => move p (.boundaryFailed e)
  | .boundaryExpired, .proceed => write p .ended (s.withStatus c .expired)
  | .boundaryFailed e, .proceed => write p .ended (s.withStatus c (if e = .registry then .error else .cancelled))
  -- `_program_slot`
  | .enqueue, .proceed => write p .lock ⟨p.entrance.queue_status, some p.requested_at⟩
  | .lock, .answer granted =>
    if granted then if s.lock = none then some ⟨p.at .owner, none, some true, false⟩ else none else move p .time
  | .lock, .raise e => move p (.handler e)
  | .owner, input => ownerFree s c p input
  | .listing, .proceed => move p (.looking s.names)
  | .looking [], .proceed => move p (if p.wait_boundary then .ready else .register)
  | .looking (other :: rest), .proceed =>
    if other ≠ c ∧ ((s.entry other).getD .missing).isEarlier p.requested_at then move p (.unlock .again)
    else move p (.looking rest)
  | .ready, .answer ready => move p (if ready then .register else .unlock .again)
  | .ready, .raise e => move p (.unlock (.raised e))
  | .register, .proceed => some ⟨p.at .running, none, none, true⟩
  | .running, .proceed => write p .inside (s.withStatus c .running)
  | .inside, .proceed => move p (.left false)
  | .inside, .raise _ => move p (.left true)
  | .left false, .proceed => write p (.unlock .returned) (s.withStatus c .done)
  | .left true, .proceed => write p (.unlock (.raised .other)) (s.withStatus c .error)
  | .unlock exit, .proceed =>
    some ⟨p.at (match exit with | .again => .time | .returned => .ended | .raised e => .handler e), none, some false, false⟩
  | .time, .answer late => move p (if late then .expire else .sleep)
  | .time, .raise e => move p (.handler e)
  | .sleep, .proceed => move p .lock
  | .sleep, .raise e => move p (.handler e)
  | .expire, .proceed => write p .ended (s.withStatus c .expired)
  | .handler e, .proceed =>
    if ((s.entry c).getD .missing).status ∈ [Status.waiting, .waiting_turn, .waiting_boundary] then
      write p .ended (s.withStatus c (if e = .registry then .error else .cancelled))
    else move p .ended
  | _, _ => none

def Sys.apply (s : Sys C P) (c : C) (o : Outcome C P) : Sys C P where
  queue := match o.entry with
    | none => s.queue
    | some e => put s.queue c e
  registry := if o.register then .owner (.corner c) else s.registry
  lock := match o.lock with
    | none => s.lock
    | some true => some c
    | some false => none
  procs := Function.update s.procs c o.proc

/-- Starts of runs, steps, deaths, and `release_program_owner`, which takes the lock for itself. -/
inductive Act (C P : Type)
  | start (c : C) (entrance : Entrance) (requested_at : ℚ) (wait_boundary : Bool)
  | step (c : C) (input : Input)
  | kill (c : C)
  | release (o : Owner C P)

/-- No run of the corner is under way. -/
def Loc.isOut : Loc C → Bool
  | .idle | .ended | .dead => true
  | _ => false

def Entrance.first : Entrance → Loc C
  | ._program_slot => .enqueue
  | .program_slot => .announce

def Sys.act [DecidableEq P] (s : Sys C P) : Act C P → Sys C P
  | .start c entrance requested_at wait_boundary =>
    if (s.procs c).loc.isOut then
      { s with procs := Function.update s.procs c ⟨entrance.first, entrance, requested_at, wait_boundary, none⟩ }
    else s
  | .step c input =>
    match advance s c input with
    | none => s
    | some o => s.apply c o
  | .kill c =>
    { s with lock := if s.lock = some c then none else s.lock, procs := Function.update s.procs c ((s.procs c).at .dead) }
  | .release o => if s.lock = none ∧ s.registry = .owner o then { s with registry := .absent } else s

/-- Any queue files and any registry, and no run. -/
def Sys.Initial (s : Sys C P) : Prop := s.lock = none ∧ ∀ c, (s.procs c).loc = .idle

end Advance

end Docich.ProgramSlot
