import Docich.Durable.Labels
import Docich.Rotation.Conserved

/-!
# What has happened to restores

- `Watch`: the disk, with what has happened to restores so far: the replays of each request with their times, the
  exhausted rows recorded for it, and whether the last replay is in the ledger;
- `watching`: the world of the rotation with this;
- `Remembered`, `remembering`: the runs in which no replay is forgotten;
- `Capped`: what is promised for a request, and `Kept`, what holds at all times of such runs;
- `Booked`, `Carries`: the ledger in memory counts every replay.

The time of a replay is the reading of the clock with which its process loaded the ledger.
-/

namespace Docich.Rotation.Restore

open Durable.Locks
open Durable.Locks.Work (throw get modify ofExcept handle fold)

/-! ## Watching -/

structure Watch where
  disk : Disk
  /-- The clock, as a process with the rotation lock read it last. -/
  reading : Time
  /-- The reading with which such a process loaded the ledger. -/
  began : Time
  /-- The times of the replays of a request, latest first. -/
  replays : RequestId → List Time
  /-- A replay is not in the ledger yet. -/
  unsaved : Bool
  /-- How many exhausted rows were recorded for a request. -/
  rows : RequestId → Nat
  /-- The request whose budget was found spent since the ledger was loaded. -/
  spent : Option RequestId
  /-- Requests whose budget was found spent, by a process that has saved the ledger since. -/
  settled : List RequestId

/-- The operations under the rotation lock. -/
def rotates : Call → Bool
  | .tick _ | .recover _ => true
  | _ => false

/-- The row says that the restore recovery of the request is exhausted. -/
def exhaustedRow (id : RequestId) (row : FailedCorner) : Bool :=
  row.request_id = .request id && row.reason_code = "restore-recovery-exhausted"

def exhaustedRows (id : RequestId) (s : Ledger) : Nat := s.failed_corners.countP (exhaustedRow id)

namespace Watch

/-- The exhausted rows of the request in the ledger on file. -/
def recorded (w : Watch) (id : RequestId) : Nat := (w.disk.ledger.map (exhaustedRows id)).getD 0

def budget (w : Watch) : Option AutoRestore := w.disk.ledger.bind Ledger.auto_restore

def saved (w : Watch) (s : Ledger) : Watch :=
  { w with
    disk := { w.disk with ledger := some s }
    unsaved := false
    rows := fun id => w.rows id + (exhaustedRows id s - w.recorded id)
    spent := none
    settled := w.spent.toList ++ w.settled }

/-- The restore recovery is replayed, for the request that is pending in the ledger. -/
def replayed (w : Watch) : Watch :=
  match w.disk.pending with
  | some p =>
    { w with
      replays := Function.update w.replays p.request_id (w.began :: w.replays p.request_id)
      unsaved := true }
  | none => w

/-- A runner is there; the budget of the pending request may be spent. -/
def looked (w : Watch) (runner : Bool) : Watch :=
  match w.disk.pending with
  | some p =>
    if runner ∧ AUTO_RESTORE_ATTEMPT_LIMIT ≤ (w.replays p.request_id).length then
      { w with spent := some p.request_id }
    else w
  | none => w

/-- What a call notes, when it has turned the disk into `d`. -/
def noted (w : Watch) (k : Call) : (q : Ask) → q.Answer → Disk → Watch
  | .clock, now, d => { w with disk := d, reading := if rotates k then now else w.reading }
  | .load, _, d => if rotates k then { w with disk := d, began := w.reading, spent := none } else { w with disk := d }
  | .restore_runner _, runner, d => { w.looked runner with disk := d }
  | .recover_failed_restore _, _, d => { w.replayed with disk := d }
  | .save state, _, d => if d.ledger = some state then { w.saved state with disk := d } else { w with disk := d }
  | _, _, d => { w with disk := d }

end Watch

/-- The world of the rotation; who asks is known. -/
def watching : World Lock (Call × Ask) (fun r => Ask.Answer r.2) Watch where
  perform := fun r w x w' => ∃ d, perform r.2 w.disk x d ∧ w' = w.noted r.1 r.2 x d
  tried := world.tried

/-- The programs of the operations, with the operation at every call. -/
abbrev labelled (k : Call) : LockProgram Lock (Call × Ask) (fun r => Ask.Answer r.2) (Ledger × Failure)
    (Ledger × Answer) := (code k).label k

/-- The systems of processes that are watched. -/
abbrev Watched : Type :=
  Sys Lock (Call × Ask) (fun r => Ask.Answer r.2) (Ledger × Failure) Call (Ledger × Answer) Watch

/-- No files, and nothing has happened. -/
def nothing : Watch :=
  { disk := noFiles, reading := 0, began := 0, replays := fun _ => [], unsaved := false, rows := fun _ => 0,
    spent := none, settled := [] }

/-! ## Runs that forget no replay -/

/-- The timer and the recovery only load a ledger that has the last replay; and where its pending request was replayed,
the budget in it is the one of this request. -/
def Remembered (k : Call) : Ask → Watch → Prop
  | .load, w => rotates k = true → w.unsaved = false ∧
      ∀ p, w.disk.pending = some p → w.replays p.request_id ≠ [] →
        ∃ b, w.budget = some b ∧ b.request_id = p.request_id
  | _, _ => True

/-- The surroundings of such runs. -/
def remembering : World Lock (Call × Ask) (fun r => Ask.Answer r.2) Watch where
  perform := fun r w x w' => watching.perform r w x w' ∧ Remembered r.1 r.2 w
  tried := world.tried

/-! ## What is promised -/

/-- Replays, latest first, are as far apart as the backoff after each asks for. -/
def Spaced : List Time → Prop
  | later :: t :: ts => t + backoff (ts.length + 1) ≤ later ∧ Spaced (t :: ts)
  | _ => True

/-- What is promised for one request: few replays, far enough apart, and at most one exhausted row, which is there once
a process has found the budget spent, and not before. -/
structure Capped (id : RequestId) (w : Watch) : Prop where
  few : (w.replays id).length ≤ AUTO_RESTORE_ATTEMPT_LIMIT
  spaced : Spaced (w.replays id)
  once : w.rows id ≤ 1
  told : id ∈ w.settled → w.rows id = 1
  late : w.rows id ≠ 0 → (w.replays id).length = AUTO_RESTORE_ATTEMPT_LIMIT

/-- A budget counts the replays of its request, and knows its exhausted row. -/
structure Booked (b : AutoRestore) (w : Watch) : Prop where
  attempts : b.attempts = (w.replays b.request_id).length
  due : ∀ t ∈ (w.replays b.request_id).head?, b.next_attempt_at = t + backoff b.attempts
  row : w.rows b.request_id = if b.exhausted_recorded then 1 else 0

/-- What holds at all times. -/
structure Kept (w : Watch) : Prop where
  capped : ∀ id, Capped id w
  recorded : ∀ id, w.recorded id ≤ w.rows id
  booked : w.unsaved = false → ∀ b, w.budget = some b → Booked b w

/-! ## The contract -/

/-- Only the disk differs, and not in its ledger. -/
def Elsewhere (w w' : Watch) : Prop := ∃ d, d.ledger = w.disk.ledger ∧ w' = { w with disk := d }

/-- The contract of the rotation about restores: without the rotation lock, nothing of this changes. -/
def restores : Contract Lock Watch where
  step := fun h w w' => (h .rotation = false → Elsewhere w w') ∧ (Kept w → Kept w')
  known := Kept
  kept := fun _ _ _ hk hs => hs.2 hk

variable {w w' : Watch} {id : RequestId} {s t : Ledger} {b : AutoRestore} {p : Pending} {now : Time} {d : Disk}

theorem Capped.congr (hreplays : w'.replays = w.replays) (hrows : w'.rows = w.rows) (hsettled : w'.settled = w.settled)
    (h : Capped id w) : Capped id w' := by
  refine ⟨?_, ?_, ?_, ?_, ?_⟩
  · rw [hreplays]
    exact h.few
  · rw [hreplays]
    exact h.spaced
  · rw [hrows]
    exact h.once
  · rw [hrows, hsettled]
    exact h.told
  · rw [hrows, hreplays]
    exact h.late

theorem Booked.congr (hreplays : w'.replays = w.replays) (hrows : w'.rows = w.rows) (h : Booked b w) : Booked b w' := by
  refine ⟨?_, ?_, ?_⟩
  · rw [hreplays]
    exact h.attempts
  · rw [hreplays]
    exact h.due
  · rw [hrows]
    exact h.row

variable (hl : w'.disk.ledger = w.disk.ledger)

include hl

theorem recorded_congr : w'.recorded = w.recorded := by
  funext id
  rw [Watch.recorded, hl, Watch.recorded]

theorem budget_congr : w'.budget = w.budget := by
  rw [Watch.budget, hl, Watch.budget]

/-- What holds at all times does not look at the rest. -/
theorem Kept.congr (hreplays : w'.replays = w.replays) (hrows : w'.rows = w.rows)
    (hsettled : w'.settled = w.settled) (hunsaved : w'.unsaved = w.unsaved) (h : Kept w) : Kept w' := by
  refine ⟨fun id => (h.capped id).congr hreplays hrows hsettled, fun id => ?_, fun hu b hb => ?_⟩
  · rw [recorded_congr hl, hrows]
    exact h.recorded id
  · rw [hunsaved] at hu
    rw [budget_congr hl] at hb
    exact (h.booked hu b hb).congr hreplays hrows

omit hl

theorem Elsewhere.kept (he : Elsewhere w w') (h : Kept w) : Kept w' := by
  obtain ⟨d, hl, rfl⟩ := he
  exact h.congr hl rfl rfl rfl rfl

theorem Elsewhere.step {h : Held Lock} (he : Elsewhere w w') : restores.step h w w' := ⟨fun _ => he, he.kept⟩

/-! ## The ledger in memory -/

/-- The ledger in memory counts every replay, has no new exhausted row, and lacks none that is due. -/
structure Carries (s : Ledger) (w : Watch) : Prop where
  booked : ∀ b, s.auto_restore = some b → Booked b w
  rows : ∀ id, exhaustedRows id s ≤ w.recorded id
  spent : ∀ id, w.spent = some id → w.rows id = 1

/-- The exhausted row of the request is the only one that is new in memory. -/
structure Exhausts (id : RequestId) (s : Ledger) (w : Watch) : Prop where
  booked : ∃ b, s.auto_restore = some b ∧ b.request_id = id ∧ b.exhausted_recorded = true ∧
    b.attempts = (w.replays id).length ∧ (∀ t ∈ (w.replays id).head?, b.next_attempt_at = t + backoff b.attempts) ∧
    AUTO_RESTORE_ATTEMPT_LIMIT ≤ b.attempts
  fresh : w.rows id = 0
  row : exhaustedRows id s = 1
  others : ∀ other, other ≠ id → exhaustedRows other s ≤ w.recorded other
  spent : ∀ other, w.spent = some other → other = id

/-- The ledger in memory may be saved. -/
def Savable (s : Ledger) (w : Watch) : Prop := Kept (w.saved s)

@[simp] theorem saved_budget : (w.saved s).budget = s.auto_restore := rfl

@[simp] theorem saved_recorded : (w.saved s).recorded id = exhaustedRows id s := rfl

theorem saved_rows : (w.saved s).rows id = w.rows id + (exhaustedRows id s - w.recorded id) := rfl

theorem Carries.saved_rows (h : Carries s w) : (w.saved s).rows = w.rows := by
  funext id
  rw [Restore.saved_rows, Nat.sub_eq_zero_of_le (h.rows id), Nat.add_zero]

/-- Who was found spent is settled now. -/
theorem mem_settled : id ∈ (w.saved s).settled ↔ w.spent = some id ∨ id ∈ w.settled := by
  simp [Watch.saved, Option.mem_toList]

theorem Carries.savable (hk : Kept w) (h : Carries s w) : Savable s w where
  capped id := by
    have hid := hk.capped id
    refine ⟨hid.few, hid.spaced, ?_, fun hs => ?_, ?_⟩
    · rw [h.saved_rows]
      exact hid.once
    · rw [h.saved_rows]
      exact (mem_settled.mp hs).elim (h.spent id) hid.told
    · rw [h.saved_rows]
      exact hid.late
  recorded id := by
    rw [h.saved_rows]
    exact (h.rows id).trans (hk.recorded id)
  booked _ b hb := Booked.congr (w := w) rfl h.saved_rows (h.booked b hb)

theorem Exhausts.saved_rows_self (hk : Kept w) (h : Exhausts id s w) : (w.saved s).rows id = 1 := by
  have hold : w.recorded id = 0 := Nat.le_zero.mp (h.fresh ▸ hk.recorded id)
  rw [saved_rows, h.fresh, h.row, hold]

theorem Exhausts.saved_rows_ne (h : Exhausts id s w) {other : RequestId} (hne : other ≠ id) :
    (w.saved s).rows other = w.rows other := by
  rw [saved_rows, Nat.sub_eq_zero_of_le (h.others other hne), Nat.add_zero]

theorem Exhausts.savable (hk : Kept w) (h : Exhausts id s w) : Savable s w := by
  obtain ⟨b, hb, hid, hflag, hattempts, hdue, hlimit⟩ := h.booked
  have hself := h.saved_rows_self hk
  refine ⟨fun other => ?_, fun other => ?_, fun _ b' hb' => ?_⟩
  · have hother := hk.capped other
    by_cases hne : other = id
    · subst hne
      exact ⟨hother.few, hother.spaced, hself.le, fun _ => hself,
        fun _ => le_antisymm hother.few (hattempts ▸ hlimit)⟩
    · have hrows := h.saved_rows_ne hne
      refine ⟨hother.few, hother.spaced, hrows ▸ hother.once, fun hs => ?_, fun hr => hother.late (hrows ▸ hr)⟩
      rw [hrows]
      exact (mem_settled.mp hs).elim (fun hs => absurd (h.spent other hs) hne) hother.told
  · by_cases hne : other = id
    · subst hne
      rw [saved_recorded, h.row, hself]
    · rw [saved_recorded, h.saved_rows_ne hne]
      exact (h.others other hne).trans (hk.recorded other)
  · rw [saved_budget, hb] at hb'
    cases hb'
    subst hid
    refine ⟨hattempts, hdue, ?_⟩
    rw [hself, hflag]
    rfl

/-- A ledger that was saved counts what it should. -/
theorem carries_saved (h : Savable s w) : Carries s (w.saved s) where
  booked b hb := h.booked rfl b hb
  rows _ := le_rfl
  spent _ hs := nomatch hs

end Docich.Rotation.Restore
