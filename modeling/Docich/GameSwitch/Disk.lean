import Docich.Durable.System
import Docich.GameSwitch.Data
import Docich.Plain

/-!
# What the coordinator asks for, and what it finds

- `Disk`: the canonical state file, the receipt files, and the history of everything durable or visible that was done
  (`Event`, newest first, each with the process that did it);
- `Op`: the requests of the coordinator: files, clocks, adapters, and chores that leave no trace here.

Two files are never written at once: every `Op` is one durable step, so a death falls between any two of them.
-/

namespace Docich.GameSwitch

open Durable

/-! ## Adapters -/

/-- An optional attribute of an adapter: missing, of the wrong type, or a value. -/
inductive Attr (α : Type) where
  | absent
  | invalid
  | value (a : α)

/-- An optional method of an adapter. -/
inductive Method where
  | absent
  | notCallable
  | callable
deriving DecidableEq

/-- What the definition of a game fixes about its adapters. -/
structure Policy where
  agentEnabled : Bool := false
  requiresRoundBoundary : Attr Bool := .absent
  requiresStopBoundary : Bool := false
  requestRoundBoundary : Method := .absent
  cancelRoundBoundary : Method := .absent
  roundBoundaryTimeout : Attr Ticks := .absent
  materializeTimeout : Attr Ticks := .absent
  canRestoreStoppedRuntime : Bool := false
  canRestoreLiveSingleton : Bool := false
  adoptFailedCandidate : Bool := false
  canReleaseTerminalPrevious : Bool := false

/-- An adapter, bound to one runtime by the factory. -/
structure Adapter where
  name : String
  policy : Policy

/-- The calls of the adapter contract. -/
inductive AdapterStep where
  | preflight | materialize | readiness | alive | cleanup | startAgent | stopAgent
  | restoreContinuity | restoreSingletonIdentity | adoptFailedCandidate | terminalPrevious
  | roundBoundary (id : RequestId)
  | cancelRoundBoundary (id : RequestId)

/-! ## History -/

/-- The log lines that matter here: the two that frame a boundary wait (before the lock is given back, and once the
acknowledgement was checked under the lock again), and the start of a recovery. -/
inductive LogEvent where
  | roundBoundaryWaiting (id : RequestId) (active : RuntimeSpec)
  | roundBoundaryReached (id : RequestId) (active : RuntimeSpec)
  | recoveryStarted (abandonProgramView adoptFailedCandidate : Bool)

/-- What is on record about the past, of what is done with the lock. `rejected` is a state that `validate_state` kept
from being written. -/
inductive Event where
  | canonical (old : Option Canonical) (new : Canonical)
  | rejected (state : Canonical) (e : Exc)
  | receipt (id : RequestId) (old : Option Receipt) (new : Receipt)
  | unlinked (id : RequestId)
  | leased (lease : LeaseId)
  | called (spec : RuntimeSpec) (step : AdapterStep) (answer : Except Exc Bool)
  | logged (e : LogEvent)

/-- The files, the clock below which no reading falls, a bound for the lease ids given out, and the history. -/
structure Disk where
  canonical : Option ValidState
  receipts : Receipts
  clock : Instant
  leases : Nat
  history : List (Nat × Event)

namespace Disk

/-- Nothing was ever written. -/
def empty : Disk := ⟨none, ∅, 0, 0, []⟩

/-- The canonical state as `load` gives it: the initial one when the file is missing. -/
def state (d : Disk) : Canonical := d.canonical.elim {} Subtype.val

def writeCanonical (d : Disk) (p : Nat) (c : ValidState) : Disk :=
  { d with canonical := some c, history := (p, .canonical (d.canonical.map Subtype.val) c.1) :: d.history }

def writeReceipt (d : Disk) (p : Nat) (id : RequestId) (r : Receipt) : Disk :=
  { d with
    receipts := d.receipts.insert id r
    clock := max d.clock (max r.createdAt r.updatedAt)
    history := (p, .receipt id (d.receipts.lookup id) r) :: d.history }

def unlinkReceipt (d : Disk) (p : Nat) (id : RequestId) : Disk :=
  { d with receipts := d.receipts.erase id, history := (p, .unlinked id) :: d.history }

end Disk

/-- The receipts in the order of their file names. -/
def Receipts.listing (rs : Receipts) : List (RequestId × Receipt) :=
  (rs.entries.map fun e => (e.1, e.2)).insertionSort fun a b => a.1.number ≤ b.1.number

/-! ## Requests -/

/-- Side effects whose failure is at most a warning, and which leave the state and the receipts alone. -/
inductive Chore where
  | mirror (game : Option GameName)
  | retireMarker (id : RuntimeId)
  | pruneHanjukuLogs
  | transitionRollbackClaim (runtimeStopped : Bool)
  | postCommit (game : GameName)

inductive Op where
  | now
  | glance
  | monotonic
  | newLease
  | newToken
  | loadCanonical
  | saveCanonical (c : Canonical)
  | loadReceipt (id : RequestId)
  | listReceipts
  | saveReceipt (id : RequestId) (r : Receipt)
  | unlinkReceipt (id : RequestId)
  | factory (spec : RuntimeSpec)
  | adapter (spec : RuntimeSpec) (step : AdapterStep)
  | chore (c : Chore)
  | claimCancel (id : RequestId)
  | awaitCancel (id : RequestId)
  | log (e : LogEvent)

/-- `glance` is the wall clock read without the lock; `saveCanonical` checks the state before it replaces the file;
`factory` may answer something that is no adapter; a chore raises none of the exceptions that are told apart here. -/
abbrev Op.Answer : Op → Type
  | .now | .glance => Instant
  | .monotonic => Ticks
  | .newLease => LeaseId
  | .newToken => Nat
  | .loadCanonical => Option ValidState
  | .saveCanonical _ => Except Exc Unit
  | .loadReceipt _ => Option Receipt
  | .listReceipts => List (RequestId × Receipt)
  | .saveReceipt _ _ => Unit
  | .unlinkReceipt _ => Unit
  | .factory _ => Except Exc (Option Adapter)
  | .adapter _ _ => Except Exc Bool
  | .chore _ => Except Exc Unit
  | .claimCancel _ => Bool
  | .awaitCancel _ => Bool × Option String
  | .log _ => Unit

/-- What the lock is taken for. -/
inductive Purpose where
  | execute (id : RequestId) (operation : Operation) (target : Option GameName) (payload : Payload)
  | recover
  | resumeQueued
  | maintainFifo
  | reacquire (id : RequestId)
  | store

/-- A computation of the coordinator. -/
abbrev M (α : Type) := LockProgram Purpose Op Op.Answer Exc α

def call (q : Op) : M q.Answer := Program.ask (.call q) .ret

end Docich.GameSwitch
