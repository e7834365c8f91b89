import Docich.Durable.Work
import Docich.HanjukuWager.Ledger

/-!
# The files of the wager and what surrounds them

- `Disk`: the ledger, the results, the cancel snapshots, the leaderboard, the canonical state and the progress of the
  runs, with what the API has been asked;
- `Ask`: what a tick asks for, and `perform`, what may be answered and happen;
- `Change`: what the rest of the program does meanwhile;
- `Work`: programs of a tick.

Files are replaced atomically; the call may raise before or after. What the API, the terminal evidence, the receipt of a
resumed run, the pause file and the settings of the client answer is arbitrary, in its shape. A run that stopped being
canonical never becomes so again, and progress never decreases.
-/

namespace Docich.HanjukuWager

open Durable.Locks (Held)
open Predictions (Text isText)
open Wire (Json)

/-! ## Files -/

/-- `game_switch.json`: whether the phase is `ready`, and the active run; none when the active one is no run of this
game. -/
structure Canonical where
  ready : Bool
  active : Option Identity

/-- A call of `end`, with what was stored then: the round, the progress of its run, and the cancel snapshot of its
prediction. `listed` is what `list` has answered last. -/
structure Ending where
  id : Text
  status : Status
  outcome : Option Text
  stored : Option Round
  cleared : Option ℕ
  snapshot : Option Remote
  listed : List Remote

/-- What the API has been asked. -/
inductive Entry
  /-- A call of `create` for the stored round, and whether it was definitively rejected. -/
  | created (stored : Option Round) (rejected : Bool)
  | ended (e : Ending)

structure Disk where
  ledger : Option State
  results : Identity → Option Result
  canonical : Canonical
  /-- Runs that are no longer canonical. -/
  past : List Identity
  cleared : Identity → Option ℕ
  /-- Runs of which terminal evidence was seen. -/
  finished : List Identity
  snapshots : Text → Option Remote
  leaderboard : Predictions.Ledger
  listed : List Remote
  /-- The last entry first. -/
  log : List Entry

/-- The round in the ledger. -/
def Disk.stored (d : Disk) : Option Round := d.ledger.bind State.round

/-! ## Requests -/

/-- What a run ends with, when its record proves it. -/
structure Evidence where
  terminal_reason : Reason
  frame_sha256 : Text

/-- What the rest of the program does. -/
inductive Change
  | canonical (c : Canonical)
  | progress (i : Identity) (cleared : ℕ)
  | remove_result (i : Identity)
  /-- Another owner of predictions records its rounds. -/
  | leaderboard (rounds : Predictions.Ledger)

inductive Ask
  | exists_
  | load
  | save (state : State)
  | terminal (i : Identity)
  | read_result (i : Identity)
  | write_result (i : Identity) (result : Result)
  | completed_count (i : Identity)
  | resume_context (i : Identity)
  | client_factory
  | canonical
  | paused
  | token_hex
  | list (id : Option Text)
  | create (title : Text) (outcomes : List Text) (window : ℕ)
  | end_ (id : Text) (status : Status) (outcome : Option Text)
  | read_snapshot (id : Text)
  | snapshot_fits (snapshot : Remote)
  | write_snapshot (id : Text) (snapshot : Remote)
  | unlink_snapshot (id : Text)
  | record (row : Remote) (now : ℤ) (cancel_reason : Option Text)
  | change (c : Change)

/-- What a request is answered: `Except` where the call can raise, `Option` where a file can be missing. -/
abbrev Ask.Answer : Ask → Type
  | .exists_ => Bool
  | .load => Except Exc (Option State)
  | .save _ => Except Exc Unit
  | .terminal _ => Except Exc (Option Evidence)
  | .read_result _ => Except Exc (Option Result)
  | .write_result _ _ => Except Exc Unit
  | .completed_count _ => Except Exc (Option ℕ)
  | .resume_context _ => Except Exc (Option (Option ℕ))
  | .client_factory => Except Exc (Option Mode)
  | .canonical => Except Exc Canonical
  | .paused => Bool
  | .token_hex => Text
  | .list _ => Except Exc (List Remote)
  | .create _ _ _ => Except Exc (List Remote)
  | .end_ _ _ _ => Except Exc (List Remote)
  | .read_snapshot _ => Except Exc (Option Remote)
  | .snapshot_fits _ => Bool
  | .write_snapshot _ _ => Except Exc Unit
  | .unlink_snapshot _ => Except Exc Unit
  | .record _ _ _ => Except Exc Bool
  | .change _ => Unit

/-! ## What may happen -/

/-- A read that may raise. -/
def Answers {α : Type} (a : α) (x : Except Exc α) : Prop := x = .ok a ∨ x = .error .other

/-- A write that may raise before or after it took place. -/
def Written (d new : Disk) (x : Except Exc Unit) (d' : Disk) : Prop :=
  d' = new ∧ (x = .ok () ∨ x = .error .other) ∨ d' = d ∧ x = .error .other

/-- What `request` returns. -/
def Admitted : Except Exc (List Remote) → Prop
  | .ok rows => rows.length ≤ 100 ∧ ∀ row ∈ rows, row.admitted = true
  | .error _ => True

/-- The modes of a client that is not there. -/
def UNAVAILABLE : List Mode := [.disabled, .explore, .unconfigured, .incompatible_soren]

def Exc.rejected : Exc → Bool
  | .api _ rejected => rejected
  | .other => false

/-- The call has been rejected. -/
def refused : Except Exc (List Remote) → Bool
  | .ok _ => false
  | .error e => e.rejected

/-- The call of `end` as it is logged. -/
def Disk.ending (d : Disk) (id : Text) (status : Status) (outcome : Option Text) : Ending where
  id := id
  status := status
  outcome := outcome
  stored := d.stored
  cleared := d.stored.bind fun row => d.cleared row.identity
  snapshot := d.snapshots id
  listed := d.listed

def CORNER : Text := "hanjuku".toList

/-- The state after a change, for one that can happen. -/
inductive Changes (d : Disk) : Change → Disk → Prop
  | canonical (c : Canonical) : (∀ i, c.active = some i → i ∉ d.past) →
      Changes d (.canonical c) { d with
        canonical := c
        past := if c.active = d.canonical.active then d.past else d.canonical.active.toList ++ d.past }
  | progress (i : Identity) (n : ℕ) : n ≤ MAX_CHAPTER → (∀ m, d.cleared i = some m → m ≤ n) →
      Changes d (.progress i n) { d with cleared := Function.update d.cleared i (some n) }
  | remove_result (i : Identity) : Changes d (.remove_result i) { d with results := Function.update d.results i none }
  | leaderboard (rounds : Predictions.Ledger) : Changes d (.leaderboard rounds) { d with leaderboard := rounds }

/-- What a request may be answered, and do. What `str` makes of a value that is no string is a parameter. -/
def perform (str : Json → Text) : (q : Ask) → Disk → q.Answer → Disk → Prop
  | .exists_, d, x, d' => d' = d ∧ x = d.ledger.isSome
  | .load, d, x, d' => d' = d ∧ Answers d.ledger x
  | .save state, d, x, d' => Written d { d with ledger := some state } x d'
  | .terminal i, d, x, d' =>
    (∃ e, x = .ok (some e) ∧ isSha e.frame_sha256 = true ∧ d' = { d with finished := i :: d.finished }) ∨
      (x = .ok none ∨ x = .error .other) ∧ d' = d
  | .read_result i, d, x, d' => d' = d ∧ Answers (d.results i) x
  | .write_result i result, d, x, d' => Written d { d with results := Function.update d.results i (some result) } x d'
  | .completed_count i, d, x, d' => d' = d ∧ Answers (d.cleared i) x
  | .client_factory, d, x, d' => d' = d ∧ ∀ mode, x = .ok (some mode) → mode ∈ UNAVAILABLE
  | .canonical, d, x, d' => d' = d ∧ Answers d.canonical x
  | .token_hex, d, x, d' => d' = d ∧ x.length = 12 ∧ x.all isHex = true
  | .list _, d, x, d' => Admitted x ∧ d' = { d with listed := match x with | .ok rows => rows | .error _ => d.listed }
  | .create _ _ _, d, x, d' => Admitted x ∧ d' = { d with log := .created d.stored (refused x) :: d.log }
  | .end_ id status outcome, d, x, d' =>
    Admitted x ∧ d' = { d with log := .ended (d.ending id status outcome) :: d.log }
  | .read_snapshot id, d, x, d' => d' = d ∧ Answers (d.snapshots id) x
  | .write_snapshot id snapshot, d, x, d' =>
    Written d { d with snapshots := Function.update d.snapshots id (some snapshot) } x d'
  | .unlink_snapshot id, d, x, d' => Written d { d with snapshots := Function.update d.snapshots id none } x d'
  | .record row now cancel_reason, d, x, d' =>
    (∃ recorded rounds, Predictions.record str d.leaderboard row.json CORNER (some now) cancel_reason =
      .ok (recorded, rounds) ∧ d' = { d with leaderboard := rounds } ∧
      (x = .ok recorded ∨ x = .error (.api .leaderboard false))) ∨ d' = d ∧ x = .error (.api .leaderboard false)
  | .change c, d, _, d' => Changes d c d'
  | .resume_context _, d, _, d' | .paused, d, _, d' | .snapshot_fits _, d, _, d' => d' = d

/-! ## Programs -/

/-- `hanjuku-predictions.lock`, which is only tried. -/
inductive Lock
  | predictions
  deriving DecidableEq

/-- A program of a tick. Its memory is the ledger it works on. -/
abbrev Work (α : Type) : Type := Durable.Locks.Work Lock Ask Ask.Answer State Exc α

open Durable.Locks.Work (throw get modify ask ofExcept)

section Calls

def saveLedger : Work Unit := do
  let state ← get
  ofExcept (← ask (.save state))

def terminal (i : Identity) : Work (Option Evidence) := do ofExcept (← ask (.terminal i))

def readResult (i : Identity) : Work (Option Result) := do ofExcept (← ask (.read_result i))

def writeResult (i : Identity) (result : Result) : Work Unit := do ofExcept (← ask (.write_result i result))

def completedCount (i : Identity) : Work (Option ℕ) := do ofExcept (← ask (.completed_count i))

def resumePredictionContext (i : Identity) : Work (Option (Option ℕ)) := do
  match ← ofExcept (← ask (.resume_context i)) with
  | some (some chapter) => if 1 ≤ chapter ∧ chapter ≤ MAX_CHAPTER then pure (some (some chapter)) else throw .other
  | context => pure context

def clientFactory : Work (Option Mode) := do ofExcept (← ask .client_factory)

def readCanonical : Work Canonical := do ofExcept (← ask .canonical)

def isPaused : Work Bool := ask Ask.paused

def tokenHex : Work Text := ask Ask.token_hex

def listRows (id : Option Text) : Work (List Remote) := do ofExcept (← ask (.list id))

def create (row : Round) : Work (List Remote) := do ofExcept (← ask (.create row.title row.outcome_titles row.window))

def endPrediction (id : Text) (status : Status) (outcome : Option Text) : Work (List Remote) := do
  ofExcept (← ask (.end_ id status outcome))

def snapshotFits (snapshot : Remote) : Work Bool := ask (Ask.snapshot_fits snapshot)

def tryWriteSnapshot (id : Text) (snapshot : Remote) : Work (Except Exc Unit) := ask (Ask.write_snapshot id snapshot)

end Calls

end Docich.HanjukuWager
