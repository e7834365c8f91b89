import Docich.PuyoProgram.Manager
import Docich.GameSwitch.Store

/-!
# The files of the corner and what surrounds them

- `Disk`: the state file, the stop request, the game switch, with what has been asked of it, announced and obeyed so far;
- `Surroundings`: the game switch, and when an owner breaks off, a stop is late or its request cannot be removed;
- `perform`, `other`: what a manager is answered, and what `stop` and the rest of the program do meanwhile.

The calls of the rotation hold its lock, so there is one of them at a time; `stop` does not wait for the lock. A request identifier is
drawn for one reservation: a run is not begun again when another one has followed it.
-/

namespace Docich.PuyoProgram

open GameSwitch (RequestId SwitchResult)

/-- The files of the game switch. -/
abbrev Plane := GameSwitch.Disk

/-- A stop request. The file names the corner only; here it is kept which run it was asked for, and which one the corner was on when
it was written, that is, when `stop` returned. -/
structure Mark where
  asked : Option RequestId
  during : Option RequestId

/-- What a run has done: it called the game switch, tried an announcement, or saw a stop request. -/
inductive Event
  | dispatched (run : RequestId) (call : SwitchCall) (answer : Except Exc SwitchResult)
  | announced (run : RequestId) (key : AnnounceKey)
  | obeyed (run : RequestId) (mark : Mark)

structure Disk where
  state : State
  stop : Option Mark
  /-- Calls of `stop` that have found a run to be stopped and will write the request. -/
  stopping : List (Option RequestId)
  plane : Plane
  /-- The runs that have been begun. -/
  begun : List RequestId
  /-- The last event first. -/
  log : List Event

def Disk.empty (plane : Plane) : Disk := ⟨{}, none, [], plane, [], []⟩

/-- A run that may be asked to stop. -/
def Status.stoppable : Status → Bool
  | .starting | .active | .restoring => true
  | _ => false

/-- What is left open: the answers of the game switch, and when an owner may break off (it dies, or its write of the state file
raises), a stop request be written, and its removal fail. -/
structure Surroundings where
  coordinator : Plane → SwitchCall → Except Exc SwitchResult → Plane → Prop
  mayBreak : Disk → Prop
  mayStop : Disk → Prop
  mayKeepStop : Prop

/-- The run of a state that is saved for the first time. -/
def beginning (d : Disk) (state : State) : List RequestId :=
  if state.rotation_request_id = d.state.rotation_request_id then d.begun else state.rotation_request_id.toList ++ d.begun

def perform (env : Surroundings) : (q : Ask) → Disk → q.Answer → Disk → Prop
  | .clock, d, _, d' => d' = d
  | .sleep _, d, _, d' => d' = d
  | .newRequestId, d, _, d' => d' = d
  | .readState, d, x, d' => d' = d ∧ (x = .ok d.state ∨ ∃ e, x = .error e)
  | .save state, d, x, d' => x = .ok () ∧ d' = { d with state := state, begun := beginning d state } ∨ (env.mayBreak d ∧ ∃ e, x = .error e) ∧ d' = d
  | .stopRequested run, d, x, d' => x = d.stop.isSome ∧ d' = { d with log := (d.stop.map (Event.obeyed run)).toList ++ d.log }
  | .clearStopRequest, d, x, d' => x = true ∧ d' = { d with stop := none } ∨ env.mayKeepStop ∧ x = false ∧ d' = d
  | .canonical, d, x, d' => d' = d ∧ (x = .ok none ∨ x = .ok (some d.plane.state) ∨ ∃ e, x = .error e)
  | .receipt id, d, x, d' => d' = d ∧ (x = .ok (d.plane.receipts.lookup id) ∨ ∃ e, x = .error e)
  | .dispatch run call, d, x, d' =>
    ∃ plane, env.coordinator d.plane call x plane ∧ d' = { d with plane := plane, log := .dispatched run call x :: d.log }
  | .announce run key, d, _, d' => d' = { d with log := .announced run key :: d.log }
  | .loadResult, d, _, d' => d' = d
  | .lockStore, d, _, d' => d' = d
  | .loadCanonical, d, x, d' => d' = d ∧ (x = .ok (d.plane.canonical.map Subtype.val) ∨ ∃ e, x = .error e)
  | .queued, d, x, d' => d' = d ∧ (x = .ok ((GameSwitch.Receipts.queued d.plane.receipts).map Prod.fst) ∨ ∃ e, x = .error e)

/-- A step of `stop`, or of the rest of the program on the game switch. -/
inductive Other (env : Surroundings) (d : Disk) : Disk → Prop
  | found : d.state.status.stoppable = true → Other env d { d with stopping := d.state.rotation_request_id :: d.stopping }
  | written {asked : Option RequestId} : asked ∈ d.stopping → env.mayStop d →
      Other env d { d with stopping := d.stopping.erase asked, stop := some ⟨asked, d.state.rotation_request_id⟩ }
  | elsewhere (plane : Plane) : Other env d { d with plane := plane }

inductive Call
  | run (cfg : Config) (rounds : ℕ) (request : RequestId)
  | reconcile (request : RequestId)
  | settle (request : RequestId)

def program : Call → M Bool
  | .run cfg rounds request => do
    let outcome ← runRotation cfg rounds request
    pure (outcome = .completed)
  | .reconcile request => reconcileFailedStart request
  | .settle request => settleReleasedFailure request

/-- A run that is not the one of the corner has not been begun before. -/
def mayStart (k : Call) (d : Disk) : Prop :=
  match k with
  | .run _ _ request => d.state.rotation_request_id = some request ∨ request ∉ d.begun
  | _ => True

def world (env : Surroundings) : Durable.Owning.World Ask Ask.Answer Call Disk where
  perform := perform env
  other := Other env
  mayStart := mayStart
  mayDie := env.mayBreak

abbrev Sys := Durable.Owning.Sys Ask Ask.Answer Exc Bool Disk

/-- The systems that can be reached from a corner that was never used. -/
def Reach (env : Surroundings) (s : Sys) : Prop :=
  ∃ plane, Durable.Owning.Reach (world env) program ⟨Disk.empty plane, none⟩ s

end Docich.PuyoProgram
