import Docich.Rotation.Restoring

/-!
# Restore replays are capped

- `triple_runAutoRestoreRecovery`, `triple_autoReleaseLatch`: the replay, the exhausted row, and what may be saved then;
- `bland_*`: the other parts of the timer and of the recovery;
- `ensures_labelled`: every operation keeps the contract;
- `replays_capped`: what holds in every run that forgets no replay; `replays_forgotten`: a run that forgets some.
-/

namespace Docich.Rotation.Restore

open Durable.Locks List Function
open Durable.Locks.Work (throw get modify ofExcept handle fold locking)

variable {α β : Type} {k : Call} {h : Held Lock} {P Q : Ledger → Watch → Prop} {w w' : Watch} {s t : Ledger}
  {id : RequestId} {b : AutoRestore} {p : Pending} {now : Time} {m : Manager}

/-! ## Loading -/

/-- A ledger without budget, rows and requests. -/
structure Blank (s : Ledger) : Prop where
  budget : s.auto_restore = none
  rows : s.failed_corners = []
  pending : s.pending = none

/-- What is on file, which counts every replay, when a process has loaded it. -/
structure OnFile (now : Time) (file : Option Ledger) (w : Watch) : Prop where
  ledger : w.disk.ledger = file
  began : w.began = now
  spent : w.spent = none
  booked : ∀ b, w.budget = some b → Booked b w
  own : ∀ p, w.disk.pending = some p → w.replays p.request_id ≠ [] → ∃ b, w.budget = some b ∧ b.request_id = p.request_id

/-- The ledger in memory, and the pending request that it was loaded with. -/
structure Latched (now : Time) (pending : Option Pending) (s : Ledger) (w : Watch) : Prop where
  carries : Carries s w
  began : w.began = now
  spent : w.spent = none
  own : ∀ p, w.disk.pending = some p → w.replays p.request_id ≠ [] →
    ∃ b, s.auto_restore = some b ∧ b.request_id = p.request_id
  pending : w.disk.pending = pending

theorem pending_ledger {d d' : Disk} (hl : d'.ledger = d.ledger) : d'.pending = d.pending := by
  rw [Disk.pending, hl, Disk.pending]

theorem frame_onFile (hr : h .rotation = true) (now : Time) (file : Option Ledger) :
    Frame h fun _ w => OnFile now file w :=
  .of_still hr
    (fun _ w d hl hp => ⟨hl.trans hp.ledger, hp.began, hp.spent, fun b hb => Booked.congr (w := w) rfl rfl
        (hp.booked b (by rwa [budget_congr (w := w) hl] at hb)), fun p hpending hne => by
      rw [budget_congr (w := w) hl]
      exact hp.own p (by rwa [pending_ledger hl] at hpending) hne⟩)
    fun _ w t hp => ⟨hp.ledger, hp.began, hp.spent, fun b hb => Booked.congr (w := w) rfl rfl (hp.booked b hb), hp.own⟩

theorem loose_latched (hr : h .rotation = true) (now : Time) (pending : Option Pending) :
    Loose h (Latched now pending) where
  toFrame := .of_still hr
    (fun s w d hl hp => ⟨(loose_carries hr).still s w d hl hp.carries, hp.began, hp.spent,
      fun p hpending => hp.own p (by rwa [pending_ledger hl] at hpending), (pending_ledger hl).trans hp.pending⟩)
    fun s w t hp => ⟨(loose_carries hr).reading s w t hp.carries, hp.began, hp.spent, hp.own, hp.pending⟩
  memory s t w hb hrows hp := ⟨(loose_carries hr).memory s t w hb hrows hp.carries, hp.began, hp.spent, hb ▸ hp.own,
    hp.pending⟩

theorem OnFile.latched (hp : OnFile now (some s) w) : Latched now s.pending s w where
  carries :=
    { booked := fun b hb => hp.booked b (by rw [Watch.budget, hp.ledger]; exact hb)
      rows := fun id => by rw [Watch.recorded, hp.ledger]; rfl
      spent := fun id hs => by
        rw [hp.spent] at hs
        cases hs }
  began := hp.began
  spent := hp.spent
  own p hpending hne := by
    have hown := hp.own p hpending hne
    rwa [Watch.budget, hp.ledger] at hown
  pending := by rw [Disk.pending, hp.ledger]; rfl

theorem OnFile.blank (hp : OnFile now none w) (hs : Blank s) : Latched now s.pending s w where
  carries :=
    { booked := fun b hb => by
        rw [hs.budget] at hb
        cases hb
      rows := fun id => by
        rw [exhaustedRows, hs.rows]
        exact Nat.zero_le _
      spent := fun id h => by
        rw [hp.spent] at h
        cases h }
  began := hp.began
  spent := hp.spent
  own p hpending := by
    rw [Disk.pending, hp.ledger] at hpending
    cases hpending
  pending := by rw [Disk.pending, hp.ledger, hs.pending]; rfl

theorem triple_clock (hr : h .rotation = true) (hk : rotates k = true) :
    Works k h (fun _ _ => True) clock (fun now _ w => w.reading = now) fun _ _ _ => True := by
  refine triple_bind (R := fun now _ w => w.reading = now) (triple_ask (loose_true (h := h)).stable ?_) fun x =>
    triple_ofExcept (fun now hnow s w hp => ?_) fun _ _ _ _ _ => trivial
  · rintro s w now w' - - ⟨⟨d, rfl, rfl⟩, -⟩
    refine ⟨⟨fun hf => absurd (hr.symm.trans hf) (by decide), fun hkept => Kept.congr (w := w) rfl rfl rfl rfl rfl hkept⟩, ?_⟩
    simp only [Watch.noted, if_pos hk]
  · unfold timestamp at hnow
    split at hnow
    · cases hnow
    · cases hnow
      exact hp

theorem triple_readLedger (hr : h .rotation = true) (hk : rotates k = true) (now : Time) :
    Works k h (fun _ w => w.reading = now) readLedger (fun x _ w => OnFile now x w) fun _ _ _ => True := by
  refine triple_bind (R := fun x _ w => ∀ y, x = .ok y → OnFile now y w)
    (triple_ask (fun _ => stable_of_still hr fun _ _ _ hq => hq) ?_) fun x =>
    triple_ofExcept (fun y hy _ w hp => hp y hy) fun _ _ _ _ _ => trivial
  rintro s w x w' hkept hnow ⟨⟨d, ⟨rfl, hx⟩, rfl⟩, hremembered⟩
  obtain ⟨hunsaved, hown⟩ := hremembered hk
  simp only [Watch.noted, if_pos hk]
  refine ⟨⟨fun hf => absurd (hr.symm.trans hf) (by decide), fun hkept => Kept.congr (w := w) rfl rfl rfl rfl rfl hkept⟩,
    fun y hy => ⟨?_, hnow, rfl, fun b hb => Booked.congr (w := w) rfl rfl (hkept.booked hunsaved b hb), hown⟩⟩
  rcases hx with ⟨e, rfl⟩ | rfl
  · cases hy
  · exact Except.ok.inj hy

theorem triple_freshLedger (hP : Frame h P) (m : Manager) (now : Time) :
    Works k h P (freshLedger m now) (fun v s w => P s w ∧ Blank v) fun _ => P := by
  refine triple_bind (Keeps.fold (fun _ _ => Keeps.bind (reads_observations _) fun _ => Keeps.pure _) _ _ P hP)
    fun named => triple_ite (fun _ => triple_throw fun _ _ hp => hp) fun _ => ?_
  refine triple_bind (reads_ask rfl P hP) fun seed => ?_
  refine triple_bind ((Keeps.bind (reads_ask rfl) Keeps.ofExcept : Reads k h legacyCorners) P hP) fun known => ?_
  refine triple_bind ((Keeps.bind (reads_ask rfl) Keeps.ofExcept : Reads k h legacy) P hP) fun old => ?_
  exact triple_pure fun _ _ hp => ⟨hp, rfl, rfl, rfl⟩

/-- The ledger in memory is the one that is returned. -/
theorem triple_load (hr : h .rotation = true) (hk : rotates k = true) (m : Manager) (now : Time) :
    Works k h (fun _ w => w.reading = now) (load m now) (fun v s w => s = v ∧ Latched now v.pending s w)
      fun _ _ _ => True := by
  refine triple_bind (triple_readLedger hr hk now) fun x => ?_
  cases x with
  | none =>
    refine triple_bind ((triple_freshLedger (frame_onFile hr now none) m now).raising fun _ _ _ _ => trivial) fun v => ?_
    refine triple_bind (R := fun _ s w => s = v ∧ Latched now v.pending s w)
      (triple_modify fun s w _ hp => ⟨rfl, hp.1.blank hp.2⟩) fun _ => triple_pure fun _ _ hp => hp
  | some v =>
    refine triple_bind (R := fun _ _ w => OnFile now (some v) w)
      (triple_ofExcept (fun _ _ _ _ hp => hp) fun _ _ _ _ _ => trivial) fun _ => ?_
    refine triple_bind (R := fun _ s w => s = v ∧ Latched now v.pending s w)
      (triple_modify fun s w _ hp => ⟨rfl, hp.latched⟩) fun _ => triple_pure fun _ _ hp => hp

/-! ## The budget -/

/-- A process looks at the budget of the request. -/
structure Facing (now : Time) (p : Pending) (s : Ledger) (w : Watch) : Prop where
  booked : ∀ b, s.auto_restore = some b → Booked b w
  rows : ∀ id, exhaustedRows id s ≤ w.recorded id
  began : w.began = now
  pending : w.disk.pending = some p
  own : w.replays p.request_id ≠ [] → ∃ b, s.auto_restore = some b ∧ b.request_id = p.request_id
  spent : ∀ id, w.spent = some id → id = p.request_id ∧ AUTO_RESTORE_ATTEMPT_LIMIT ≤ (w.replays p.request_id).length

/-- The budget in memory is the one of the request. -/
structure Tries (now : Time) (p : Pending) (b : AutoRestore) (s : Ledger) (w : Watch) : Prop where
  budget : s.auto_restore = some b
  id : b.request_id = p.request_id
  booked : Booked b w
  rows : ∀ id, exhaustedRows id s ≤ w.recorded id
  began : w.began = now
  pending : w.disk.pending = some p
  spent : ∀ id, w.spent = some id → id = p.request_id ∧ AUTO_RESTORE_ATTEMPT_LIMIT ≤ b.attempts

/-- The budget of a new reservation. -/
def fresh (p : Pending) (now : Time) : AutoRestore :=
  { request_id := p.request_id, corner := p.corner, attempts := 0, next_attempt_at := now, exhausted_recorded := false }

/-- A request without replays has no row either. -/
theorem Kept.rows_eq_zero (hk : Kept w) (hid : w.replays id = []) : w.rows id = 0 := by
  by_contra hne
  have hlimit := (hk.capped id).late hne
  rw [hid] at hlimit
  exact absurd hlimit (by decide)

/-- The budget that is looked at counts the replays of the request. -/
theorem Facing.budget (hk : Kept w) (hp : Facing now p s w) :
    (autoRestoreBudget p now s).request_id = p.request_id ∧ Booked (autoRestoreBudget p now s) w := by
  have hfresh : w.replays p.request_id = [] → Booked (fresh p now) w := by
    intro hnone
    refine ⟨?_, ?_, ?_⟩
    · exact (congrArg List.length hnone).symm
    · intro t ht
      rw [show w.replays (fresh p now).request_id = [] from hnone] at ht
      cases ht
    · exact hk.rows_eq_zero hnone
  unfold autoRestoreBudget
  cases hb : s.auto_restore with
  | none =>
    refine ⟨rfl, hfresh ?_⟩
    by_contra hne
    obtain ⟨b, hsome, -⟩ := hp.own hne
    rw [hb] at hsome
    cases hsome
  | some record =>
    dsimp only
    split
    · next hid => exact ⟨hid, hp.booked record hb⟩
    · next hid =>
      refine ⟨rfl, hfresh ?_⟩
      by_contra hne
      obtain ⟨b, hsome, hother⟩ := hp.own hne
      rw [hb] at hsome
      cases hsome
      exact hid hother

theorem Tries.carries (hp : Tries now p b s w) (hrow : AUTO_RESTORE_ATTEMPT_LIMIT ≤ b.attempts →
    b.exhausted_recorded = true) : Carries s w where
  booked b' hb' := by
    rw [hp.budget] at hb'
    cases hb'
    exact hp.booked
  rows := hp.rows
  spent id hs := by
    obtain ⟨rfl, hlimit⟩ := hp.spent id hs
    rw [← hp.id, hp.booked.row, hrow hlimit]
    rfl

/-! ## The exhausted row -/

/-- The last row in memory is the exhausted row of the request. -/
def Last (id : RequestId) (s : Ledger) : Prop := ∃ rows row, s.failed_corners = rows ++ [row] ∧ exhaustedRow id row = true

theorem lastRows_append (rows : List FailedCorner) (row : FailedCorner) :
    ∃ kept, lastRows FAILED_CORNER_LIMIT (rows ++ [row]) = kept ++ [row] ∧ kept.Sublist rows := by
  refine ⟨rows.drop ((rows ++ [row]).length - FAILED_CORNER_LIMIT), ?_, drop_sublist _ _⟩
  rw [lastRows, drop_append_of_le_length]
  rw [length_append, length_singleton, FAILED_CORNER_LIMIT]
  omega

/-- Memory that agrees on budget and rows. -/
theorem Exhausts.memory (hp : Exhausts id s w) (hb : t.auto_restore = s.auto_restore)
    (hrows : t.failed_corners = s.failed_corners) : Exhausts id t w := by
  have hcount : ∀ id, exhaustedRows id t = exhaustedRows id s := fun id => by
    rw [exhaustedRows, hrows, exhaustedRows]
  refine ⟨?_, hp.fresh, (hcount id).trans hp.row, fun other hne => (hcount other).le.trans (hp.others other hne),
    hp.spent⟩
  rw [hb]
  exact hp.booked

variable {row : FailedCorner} {R : α → Ledger → Watch → Prop}
    {serve : Sys.Server Ask Ask.Answer Disk}

/-- Another row after the exhausted one leaves it there. -/
theorem Exhausts.recorded (hp : Exhausts id s w) (hlast : Last id s)
    (hrow : row.reason_code ≠ "restore-recovery-exhausted") :
    Exhausts id { s with failed_corners := lastRows FAILED_CORNER_LIMIT (s.failed_corners ++ [row]) } w := by
  refine ⟨hp.booked, hp.fresh, ?_, fun other hne => ?_, hp.spent⟩
  · obtain ⟨rows, last, hrows, hlast⟩ := hlast
    have hone := hp.row
    rw [exhaustedRows, hrows, countP_append, countP_singleton, if_pos hlast] at hone
    have hcut : ∃ kept, lastRows FAILED_CORNER_LIMIT (s.failed_corners ++ [row]) = kept ++ [last, row] ∧
        kept.Sublist rows := by
      refine ⟨rows.drop ((rows ++ [last, row]).length - FAILED_CORNER_LIMIT), ?_, drop_sublist _ _⟩
      rw [lastRows, hrows, append_assoc, singleton_append, drop_append_of_le_length]
      rw [length_append, length_cons, length_singleton, FAILED_CORNER_LIMIT]
      omega
    obtain ⟨kept, hcut, hsub⟩ := hcut
    have hkept := hsub.countP_le (p := exhaustedRow id)
    simp only [exhaustedRows, hcut, countP_append, countP_cons, countP_nil, if_pos hlast,
      exhaustedRow_eq_false hrow id, Bool.false_eq_true, if_false]
    omega
  · exact (lastRows_countP_le (exhaustedRow_eq_false hrow other)).trans (hp.others other hne)

/-- A spent budget gets its row. -/
theorem Tries.exhausts (hk : Kept w) (hp : Tries now p b s w) (hlimit : AUTO_RESTORE_ATTEMPT_LIMIT ≤ b.attempts)
    (hflag : b.exhausted_recorded = false) (hrow : row.request_id = .request p.request_id)
    (hreason : row.reason_code = "restore-recovery-exhausted")
    (ht : t.auto_restore = some { b with exhausted_recorded := true })
    (hrows : t.failed_corners = lastRows FAILED_CORNER_LIMIT (s.failed_corners ++ [row])) :
    Exhausts p.request_id t w ∧ Last p.request_id t := by
  have hself : exhaustedRow p.request_id row = true := by simp [exhaustedRow, hrow, hreason]
  have hother : ∀ other, other ≠ p.request_id → exhaustedRow other row = false := by
    intro other hne
    simp [exhaustedRow, hrow, hne.symm]
  have hfresh : w.rows p.request_id = 0 := by
    rw [← hp.id, hp.booked.row, hflag]
    rfl
  obtain ⟨kept, hkept, hsub⟩ := lastRows_append s.failed_corners row
  rw [hkept] at hrows
  have hbefore : exhaustedRows p.request_id s = 0 :=
    Nat.le_zero.mp (((hp.rows _).trans (hk.recorded _)).trans hfresh.le)
  have hnone : kept.countP (exhaustedRow p.request_id) = 0 := Nat.le_zero.mp (hsub.countP_le.trans hbefore.le)
  refine ⟨⟨⟨_, ht, hp.id, rfl, ?_, ?_, hlimit⟩, hfresh, ?_, fun other hne => ?_, fun other hs => (hp.spent other hs).1⟩,
    kept, row, hrows, hself⟩
  · rw [← hp.id]
    exact hp.booked.attempts
  · rw [← hp.id]
    exact hp.booked.due
  · rw [exhaustedRows, hrows, countP_append, hnone, countP_singleton, if_pos hself]
  · rw [exhaustedRows, hrows, countP_append, countP_singleton, hother other hne]
    exact hsub.countP_le.trans (hp.rows other)

/-! ## A replay -/

theorem replayed_of_pending (hp : w.disk.pending = some p) : w.replayed =
    { w with replays := Function.update w.replays p.request_id (w.began :: w.replays p.request_id), unsaved := true } := by
  rw [Watch.replayed, hp]

/-- One more replay, when the budget allows it. -/
theorem Tries.replayed (hk : Kept w) (hp : Tries now p b s w) (hfew : b.attempts < AUTO_RESTORE_ATTEMPT_LIMIT)
    (hdue : b.next_attempt_at ≤ now) :
    Kept w.replayed ∧
      Booked { b with attempts := b.attempts + 1, next_attempt_at := now + backoff (b.attempts + 1) } w.replayed := by
  have hlength : (w.replays p.request_id).length = b.attempts := by
    rw [← hp.id]
    exact hp.booked.attempts.symm
  have hfresh : w.rows p.request_id = 0 := by
    by_contra hne
    have hlate := (hk.capped p.request_id).late hne
    omega
  rw [replayed_of_pending hp.pending]
  refine ⟨⟨fun id => ?_, hk.recorded, fun hu => nomatch hu⟩, ?_⟩
  · have hid := hk.capped id
    by_cases hne : id = p.request_id
    · subst hne
      refine ⟨?_, ?_, hid.once, hid.told, fun h => absurd hfresh h⟩
      · dsimp only
        rw [update_self, length_cons, hlength]
        exact hfew
      · dsimp only
        rw [update_self]
        cases hreplays : w.replays p.request_id with
        | nil => trivial
        | cons t ts =>
          refine ⟨?_, hreplays ▸ hid.spaced⟩
          have ht := hp.booked.due t (by rw [hp.id, hreplays]; rfl)
          rw [hreplays, length_cons] at hlength
          rw [hlength, ← ht, hp.began]
          exact hdue
    · have hsame : Function.update w.replays p.request_id (w.began :: w.replays p.request_id) id = w.replays id :=
        update_of_ne hne _ _
      refine ⟨?_, ?_, hid.once, hid.told, ?_⟩
      · dsimp only
        rw [hsame]
        exact hid.few
      · dsimp only
        rw [hsame]
        exact hid.spaced
      · dsimp only
        rw [hsame]
        exact hid.late
  · refine ⟨?_, ?_, hp.booked.row⟩
    · dsimp only
      rw [hp.id, update_self, length_cons, hlength]
    · dsimp only
      rw [hp.id, update_self]
      rintro t ⟨⟩
      rw [hp.began]

/-! ## The latch -/

/-- What the latch leaves in memory: what it carries may be saved, or the exhausted row is new and the last one. -/
def Leaves (id : RequestId) (s : Ledger) (w : Watch) : Prop := Carries s w ∨ Exhausts id s w ∧ Last id s

theorem frame_leaves (hr : h .rotation = true) (id : RequestId) : Frame h (Leaves id) :=
  .of_still hr
    (fun s w d hl hp => hp.imp ((loose_carries hr).still s w d hl)
      fun hp => ⟨(frame_exhausts hr id).still s w d hl hp.1, hp.2⟩)
    fun s w t hp => hp.imp ((loose_carries hr).reading s w t) fun hp => ⟨(frame_exhausts hr id).reading s w t hp.1, hp.2⟩

theorem triple_or {X : Failure → Ledger → Watch → Prop} {m : Work α}
    (hP : Works k h P m R X) (hQ : Works k h Q m R X) : Works k h (fun s w => P s w ∨ Q s w) m R X :=
  fun s w hk hp => hp.elim (hP s w hk) (hQ s w hk)

theorem frame_tries (hr : h .rotation = true) (now : Time) (p : Pending) (b : AutoRestore) : Frame h (Tries now p b) :=
  .of_still hr
    (fun s w d hl hp => ⟨hp.budget, hp.id, Booked.congr (w := w) rfl rfl hp.booked, fun id => by
      rw [recorded_congr (w := w) hl]
      exact hp.rows id, hp.began, (pending_ledger hl).trans hp.pending, hp.spent⟩)
    fun s w t hp => ⟨hp.budget, hp.id, Booked.congr (w := w) rfl rfl hp.booked, hp.rows, hp.began, hp.pending, hp.spent⟩

/-- The answer about the runner is noted. -/
theorem triple_restoreRunner (hr : h .rotation = true) (p : Pending) (now : Time) :
    Works k h (Latched now (some p)) (restoreRunner p.corner)
      (fun runner s w => if runner then Facing now p s w else Carries s w) fun _ _ _ => True := by
  refine triple_ask (loose_latched hr now (some p)).stable ?_
  rintro s w runner w' - hp ⟨⟨d, rfl, rfl⟩, -⟩
  have hnoted : w.noted k (.restore_runner p.corner) runner w.disk =
      if runner ∧ AUTO_RESTORE_ATTEMPT_LIMIT ≤ (w.replays p.request_id).length then
        { w with spent := some p.request_id } else w := by
    simp only [Watch.noted, Watch.looked, hp.pending]
    split <;> rfl
  rw [hnoted]
  have hfacing : ∀ spent : Option RequestId, (∀ id, spent = some id →
      id = p.request_id ∧ AUTO_RESTORE_ATTEMPT_LIMIT ≤ (w.replays p.request_id).length) →
      Facing now p s { w with spent := spent } := fun spent hspent =>
    ⟨fun b hb => Booked.congr (w := w) rfl rfl (hp.carries.booked b hb), hp.carries.rows, hp.began, hp.pending,
      hp.own p hp.pending, hspent⟩
  have hnone : Facing now p s w := by
    have := hfacing w.spent fun id hs => by
      rw [hp.spent] at hs
      cases hs
    exact this
  split
  · next hspent =>
    refine ⟨⟨fun hf => absurd (hr.symm.trans hf) (by decide), fun hk => Kept.congr (w := w) rfl rfl rfl rfl rfl hk⟩, ?_⟩
    rw [if_pos hspent.1]
    refine hfacing _ fun id hid => ?_
    cases hid
    exact ⟨rfl, hspent.2⟩
  · refine ⟨⟨fun _ => ⟨w.disk, rfl, rfl⟩, fun hk => hk⟩, ?_⟩
    split
    · exact hnone
    · exact hp.carries

theorem triple_runAutoRestoreRecovery (hr : h .rotation = true) (p : Pending) (now : Time) :
    Works k h (Latched now (some p)) (runAutoRestoreRecovery m p now) (fun _ => Leaves p.request_id)
      fun _ _ _ => True := by
  have hcarries := loose_carries hr
  refine triple_bind (triple_restoreRunner hr p now) fun runner => ?_
  cases runner with
  | false => exact triple_pure fun _ _ hp => .inl hp
  | true =>
    refine triple_get fun state => ?_
    have hbudget : ∀ s w, Kept w → (s = state ∧ Facing now p s w) → Tries now p (autoRestoreBudget p now state)
        { s with auto_restore := some (autoRestoreBudget p now state) } w := by
      rintro s w hk ⟨rfl, hp⟩
      obtain ⟨hid, hbooked⟩ := hp.budget hk
      refine ⟨rfl, hid, hbooked, hp.rows, hp.began, hp.pending, fun id hs => ?_⟩
      rw [hbooked.attempts, hid]
      exact hp.spent id hs
    refine triple_bind (R := fun _ => Tries now p (autoRestoreBudget p now state))
      (triple_modify fun s w hk hp => hbudget s w hk hp) fun _ => ?_
    generalize autoRestoreBudget p now state = record
    have hframe := frame_tries hr now p record
    refine triple_ite (fun hstop => triple_ite (fun hspent => ?_) fun hspent => ?_) fun hgo => ?_
    · -- the budget is spent, and the row is new
      have hflag : record.exhausted_recorded = false := by simpa using hspent.2
      refine triple_bind (R := fun _ s w => ∃ s₀, Tries now p record s₀ w ∧ s.failed_corners = s₀.failed_corners ∧
        s.auto_restore = some { record with exhausted_recorded := true })
        (triple_modify fun s w _ hp => ⟨s, hp, rfl, rfl⟩) fun _ => ?_
      refine triple_bind (R := fun _ => Leaves p.request_id) (triple_modify fun s w hk hp => ?_) fun _ =>
        triple_ret
      obtain ⟨s₀, hp, hrows, hauto⟩ := hp
      exact .inr (hp.exhausts hk hspent.1 hflag rfl rfl hauto (by rw [← hrows]))
    · refine triple_pure fun s w hp => .inl (hp.carries fun hlimit => ?_)
      by_contra hflag
      exact hspent ⟨hlimit, by simpa using hflag⟩
    · -- a replay
      have hfew : record.attempts < AUTO_RESTORE_ATTEMPT_LIMIT := not_le.mp fun hle => hgo (.inl hle)
      have hdue : record.next_attempt_at ≤ now := not_lt.mp fun hlt => hgo (.inr hlt)
      have hreplay : Works k h (Tries now p record) (recoverFailedRestore p.corner)
          (fun _ s w => (∀ id, exhaustedRows id s ≤ w.recorded id) ∧ w.spent = none ∧
            Booked { record with attempts := record.attempts + 1, next_attempt_at := now + backoff (record.attempts + 1) } w)
          fun _ _ _ => True := by
        refine triple_ask hframe.stable ?_
        rintro s w x w' hk hp ⟨⟨d, rfl, rfl⟩, -⟩
        obtain ⟨hkept, hbooked⟩ := hp.replayed hk hfew hdue
        have hnoted : w.noted k (.recover_failed_restore p.corner) x w.disk = w.replayed := by
          simp only [Watch.noted, replayed_of_pending hp.pending]
        have hspent : w.spent = none := by
          cases hs : w.spent with
          | none => rfl
          | some id => exact absurd (hp.spent id hs).2 (not_le.mpr hfew)
        rw [hnoted]
        refine ⟨⟨fun hf => absurd (hr.symm.trans hf) (by decide), fun _ => hkept⟩, ?_, ?_, hbooked⟩
        · rw [recorded_congr (w := w) (by rw [replayed_of_pending hp.pending])]
          exact hp.rows
        · rw [replayed_of_pending hp.pending]
          exact hspent
      refine triple_bind hreplay fun _ => ?_
      refine triple_bind (R := fun _ => Carries) (triple_modify fun s w _ hp => ?_) fun _ => ?_
      · obtain ⟨hrows, hspent, hbooked⟩ := hp
        refine ⟨fun b hb => ?_, hrows, fun id hs => ?_⟩
        · cases hb
          exact hbooked
        · rw [hspent] at hs
          cases hs
      · refine ((Keeps.handle (still_commitVerifiedFailedStart (fun _ => hr) m p.reservation now)
          fun _ => Keeps.pure _) Carries hcarries).post (fun _ _ _ hp => .inl hp)
          fun _ _ _ _ => trivial

/-- The row of the release comes after the exhausted one. -/
theorem triple_releaseExhausted (hr : h .rotation = true) (id : RequestId) (reservation : Pending) (kind : ErrorKind)
    (now : Time) (base_unrestored : Bool) :
    Works k h (fun s w => Exhausts id s w ∧ Last id s) (releaseFailedCorner m reservation kind now base_unrestored)
      (fun _ => Exhausts id) fun _ _ _ => True := by
  have hframe := frame_exhausts hr id
  refine triple_bind (R := fun _ => Exhausts id) (triple_modify fun s w _ hp => ?_) fun _ => ?_
  · exact hp.1.recorded hp.2 (reason_ne (release_reason_ne base_unrestored) .released_unverified)
  refine triple_bind (R := fun _ => Exhausts id) (triple_modify fun s w _ hp => hp.memory rfl rfl) fun _ => ?_
  refine triple_bind ((reads_ask rfl _ hframe).raising fun _ _ _ _ => trivial)
    fun _ => ?_
  refine triple_bind ((reads_ask rfl _ hframe).raising fun _ _ _ _ => trivial)
    fun _ => ?_
  refine triple_bind (R := fun _ => Exhausts id) (triple_modify fun s w _ hp => hp.memory rfl rfl) fun _ => ?_
  exact triple_ret

/-- What the latch leaves in memory may be saved. -/
def Decided (s : Ledger) (w : Watch) : Prop := Carries s w ∨ ∃ id, Exhausts id s w

theorem Decided.savable (hk : Kept w) (hp : Decided s w) : Savable s w := by
  rcases hp with hp | ⟨id, hp⟩
  · exact hp.savable hk
  · exact hp.savable hk

theorem stable_decided (hr : h .rotation = true) (s : Ledger) : restores.Stable h (Decided s) :=
  stable_of_still hr fun w d hl hp => hp.imp ((loose_carries hr).still s w d hl)
    fun ⟨id, hp⟩ => ⟨id, (frame_exhausts hr id).still s w d hl hp⟩

theorem Leaves.decided (hp : Leaves id s w) : Decided s w := hp.imp (fun hc => hc) fun hp => ⟨id, hp.1⟩

theorem triple_releaseLatched (hr : h .rotation = true) (p : Pending) (kind : ErrorKind) (now : Time) :
    Works k h (Latched now (some p)) (releaseLatched m p kind now) (fun _ => Decided) fun _ _ _ => True := by
  have hlatched := loose_latched hr now (some p)
  have hcarries := loose_carries hr
  refine triple_bind ((reads_leftoverCornerGame _ _ m _ hlatched.toFrame).raising
    fun _ _ _ _ => trivial) fun leftover => ?_
  refine triple_bind (R := fun _ => Leaves p.request_id) ?_ fun replayed => ?_
  · exact triple_ite (fun _ => triple_runAutoRestoreRecovery hr p now) fun _ => triple_pure fun _ _ hp => .inl hp.carries
  cases replayed with
  | some outcome => exact triple_pure fun _ _ hp => hp.decided
  | none =>
    refine triple_bind ((reads_slotReusable _ _ m _ (frame_leaves hr p.request_id)).raising fun _ _ _ _ => trivial) fun reusable => triple_ite (fun _ => ?_) fun _ => ?_
    · refine triple_bind (R := fun _ => Decided) (triple_or ?_ ?_) fun _ => triple_ret
      · exact (still_releaseFailedCorner m p kind now leftover Carries hcarries).post (fun _ _ _ hp => .inl hp) fun _ _ _ _ => trivial
      · exact (triple_releaseExhausted hr p.request_id p kind now leftover).post (fun _ _ _ hp => .inr ⟨_, hp⟩) fun _ _ _ hp => hp
    · refine triple_bind (R := fun _ => Decided) (triple_or ?_ ?_) fun _ => triple_ret
      · exact (still_recordFailedCornerOnce _ _ _ _ _ none_reason_ne Carries hcarries).post (fun _ _ _ hp => .inl hp) fun _ _ _ _ => trivial
      · -- the exhausted row is one of the request
        refine triple_get fun state => ?_
        refine triple_ite (fun _ => triple_pure fun s w hp => .inr ⟨_, hp.2.1⟩) fun hnew s w hk hp => absurd ?_ hnew
        obtain ⟨rfl, -, rows, row, hrows, hrow⟩ := hp
        rw [hrows, any_append]
        simp only [exhaustedRow, Bool.and_eq_true, decide_eq_true_eq] at hrow
        simp [hrow.1]

theorem triple_autoReleaseLatch (hr : h .rotation = true) (now : Time) (pending : Option Pending) :
    Works k h (fun s w => s.pending = pending ∧ Latched now pending s w) (autoReleaseLatch m now) (fun _ => Decided)
      fun _ _ _ => True := by
  refine triple_get fun v => ?_
  refine Triple.pre (P := fun s w => v.pending = pending ∧ Latched now pending s w) ?_ fun s w hp =>
    ⟨hp.1 ▸ hp.2.1, hp.2.2⟩
  refine triple_fact fun hv => ?_
  subst hv
  split
  · next p hpending hmanual =>
    rw [hpending]
    have hlatched := loose_latched hr now (some p)
    refine triple_ite (fun _ => triple_pure fun _ _ hp => .inl hp.carries) fun _ => ?_
    refine triple_bind ((Keeps.handle (still_commitVerifiedFailedStart (fun _ => hr) m p.reservation now)
      fun _ => Keeps.pure _) (Latched now (some p)) hlatched |>.raising
      fun _ _ _ _ => trivial) fun committed => ?_
    cases committed with
    | some outcome => exact triple_pure fun _ _ hp => .inl hp.carries
    | none => exact triple_releaseLatched hr p _ now
  · exact triple_pure fun _ _ hp => .inl hp.carries

/-! ## The rest of the timer -/

section Timer

variable (m : Manager) (now : Time) (hr : h .rotation = true)

include hr

theorem bland_wait (reason : String) : Bland k h (wait reason) :=
  .bind (bland_update hr fun _ => ⟨rfl, rfl⟩) fun _ => .bind (bland_saveState hr) fun _ => .pure _

theorem bland_waiting (reason : String) : Bland k h (do
    let outcome ← wait reason
    Pure.pure (.done outcome : Stage)) :=
  .bind (bland_wait hr reason) fun _ => .pure _

theorem bland_observations (corner : String) : Bland k h (observations corner) := (reads_observations corner).bland hr

theorem bland_commit (r : Reservation) : Bland k h (commitVerifiedFailedStart m r now) :=
  (still_commitVerifiedFailedStart (fun _ => hr) m r now).bland hr

theorem bland_importManualQueue (hi : h .inbox = false) : Bland k h (importManualQueue now) := by
  rintro P rfl
  refine triple_locking hi (loose_carries hr).stable (fun ht => nomatch ht) ?_
  have hr : Function.update h .inbox true .rotation = true := by
    exact hr
  generalize Function.update h .inbox true = h at hr
  refine (.bind (reads_readManualQueue.bland hr) fun x => ?_ : Bland k h _) Carries rfl
  cases x with
  | none => exact .pure _
  | some request =>
    refine .ite (fun _ => .pure _) fun _ => .bind .get fun state => ?_
    refine .ite (fun _ => .throw _) fun _ => .bind (bland_update hr fun _ => ⟨rfl, rfl⟩) fun _ => ?_
    exact .bind (bland_saveState hr) fun _ => .bind ((reads_unlinkManualQueue _).bland hr) fun _ => .pure _

variable (eligible : List String) (future : Option Request) (manual : Manual) (manual_eligible : List String)
    (pending : Pending)

theorem bland_expireCapture (expires : Time) : Bland k h (expireCapture m manual expires now) := by
  refine .bind (bland_commit m now hr _) fun x => ?_
  cases x with
  | some outcome => exact .bind (bland_saveState hr) fun _ => .pure _
  | none =>
    refine .bind (.ite (fun _ => bland_observations hr _) fun _ => .pure _) fun raws => ?_
    refine .bind (.ofExcept _) fun started => .ite (fun _ => .pure _) fun _ => ?_
    refine .bind (.ite (fun _ => (still_observe m now).bland hr) fun _ => .pure _) fun found => ?_
    refine .bind (.ite (fun _ => (reads_ask rfl).bland hr) fun _ => .pure _) fun unowned => ?_
    refine .ite (fun _ => bland_waiting hr _) fun _ => ?_
    exact .bind (bland_update hr fun _ => ⟨rfl, rfl⟩) fun _ => .pure _

theorem bland_verifyManual : Bland k h (verifyManual m manual now) := by
  refine .bind (bland_commit m now hr _) fun x => ?_
  cases x with
  | some outcome => exact .bind (bland_saveState hr) fun _ => .pure _
  | none => exact .pure _

theorem bland_restoreManual : Bland k h (restoreManual m manual now) := by
  have hverify := bland_verifyManual (k := k) m now hr manual
  refine .ite (fun _ => hverify) fun _ => .bind ((reads_ask rfl).bland hr) fun file => ?_
  refine .ite (fun _ => .bind (bland_observations hr _) fun raws => ?_) fun _ => hverify
  refine .ite (fun _ => .throw _) fun _ => .ite (fun _ => ?_) fun _ => hverify
  refine .bind ((reads_execute _ _).bland hr) fun resumed => ?_
  refine .ite (fun _ => ?_) fun _ => .ite (fun _ => bland_waiting hr _) fun _ => .throw _
  exact .bind ((reads_clock fun _ => hr).bland hr) fun settled_at =>
    .ite (fun _ => .throw _) fun _ => .pure _

theorem bland_manualStage : Bland k h (manualStage m now) := by
  refine .bind .get fun state => ?_
  split
  · exact .pure _
  · refine .bind ?_ fun stage => ?_
    · split
      · exact .ite (fun _ => bland_expireCapture m now hr _ _) fun _ => .pure _
      · exact .pure _
    · split
      · exact bland_restoreManual m now hr _
      · exact .pure _

theorem bland_takeQueued : Bland k h (takeQueued m now manual_eligible) := by
  refine .bind .get fun state => ?_
  split
  · refine .ite (fun _ => .ite (fun _ => .throw _) fun _ => .ite (fun _ => ?_) fun _ => ?_)
      fun _ => .pure _
    · exact .bind (bland_wait hr _) fun _ => .pure _
    · exact .bind (bland_update hr fun _ => ⟨rfl, rfl⟩) fun _ => .bind (bland_saveState hr) fun _ => .pure _
  · exact .pure _

theorem bland_waitForCandidates :
    Bland k h (waitForCandidates m now eligible future) := by
  refine .bind .get fun state => .bind ?_ fun _ => .ite (fun _ => bland_wait hr _) fun _ => bland_wait hr _
  split
  · exact bland_update hr fun _ => ⟨rfl, rfl⟩
  · exact .pure _

theorem bland_reserve : Bland k h (reserve m now eligible future) := by
  refine .ite (fun _ => .bind (bland_wait hr _) fun _ => .pure _) fun _ => .bind ?_ fun _ => ?_
  · refine .ite (fun _ => bland_update hr fun s => ?_) fun _ => bland_update hr fun _ => ⟨rfl, rfl⟩
    split <;> exact ⟨rfl, rfl⟩
  refine .bind .get fun state => ?_
  refine .ite (fun _ => .bind (bland_wait hr _) fun _ => .pure _) fun _ => ?_
  refine .bind (.ite (fun _ => .pure _) fun _ => (reads_ask rfl).bland hr) fun planned => ?_
  split
  · exact .bind (bland_waitForCandidates m now hr _ _) fun _ => .pure _
  · exact .bind (bland_update hr fun _ => ⟨rfl, rfl⟩) fun _ => .bind (bland_saveState hr) fun _ => .pure _

theorem bland_noteStart (raws : List Observation) : Bland k h (noteStart pending raws) := by
  refine .fold (fun _ raw => ?_) _ _
  split
  · exact .pure _
  · exact .bind (.ofExcept _) fun _ => bland_update hr fun _ => ⟨rfl, rfl⟩

theorem bland_release (reservation : Pending) (kind : ErrorKind) : Bland k h (do
    let outcome ← releaseFailedCorner m reservation kind now false
    saveState
    Pure.pure outcome) :=
  .bind ((still_releaseFailedCorner m reservation kind now false).bland hr) fun _ =>
    .bind (bland_saveState hr) fun _ => .pure _

theorem bland_runSlot : Bland k h (runSlot m pending now) := by
  refine .bind (bland_update hr fun _ => ⟨rfl, rfl⟩) fun _ => .bind (bland_saveState hr) fun _ => ?_
  refine .bind ((reads_execute _ _).bland hr) fun status => ?_
  refine .bind (bland_observations hr _) fun raws => .bind (bland_noteStart hr _ _) fun _ => ?_
  refine .ite (fun _ => ?_) fun _ => .ite (fun _ => ?_) fun _ => ?_
  · refine .bind ((reads_clock fun _ => hr).bland hr) fun finished => ?_
    exact .bind (bland_update hr fun _ => ⟨rfl, rfl⟩) fun _ => .bind (bland_saveState hr) fun _ => .pure _
  · exact .bind (bland_update hr fun _ => ⟨rfl, rfl⟩) fun _ => .bind (bland_saveState hr) fun _ => .pure _
  · refine .bind ((reads_slotReusable _ _ m).bland hr) fun reusable => .bind ?_ fun leftover => ?_
    · exact .ite (fun _ => (reads_leftoverCornerGame _ _ m).bland hr) fun _ => .pure _
    · exact .ite (fun _ => bland_release m now hr _ _) fun _ => .throw _

theorem bland_dispatch :
    Bland k h (dispatch m now eligible manual_eligible pending) := by
  refine .ite (fun _ => .throw _) fun _ => .bind (bland_observations hr _) fun raws => ?_
  refine .ite (fun _ => bland_wait hr _) fun _ => .ite (fun _ => ?_) fun _ => bland_runSlot m now hr _
  refine .bind .get fun state => .ite (fun _ => bland_wait hr _) fun _ => ?_
  exact .bind (bland_update hr fun _ => ⟨rfl, rfl⟩) fun _ => bland_runSlot m now hr _

theorem bland_resolve (r : Reservation) : Bland k h (do
    let outcome ← resolveReservation m r now
    saveState
    Pure.pure outcome) :=
  .bind ((still_resolveReservation m r now).bland hr) fun _ => .bind (bland_saveState hr) fun _ => .pure _

theorem bland_tickSelect (manual : Option Manual) :
    Bland k h (tickSelect m now future manual) := by
  refine .bind ((still_observe m now).bland hr) fun found => ?_
  cases manual with
  | some manual =>
    refine .bind (.ite (fun _ => bland_observations hr _) fun _ => .pure _) fun raws => ?_
    exact .ite (fun _ => bland_resolve m now hr _) fun _ => bland_wait hr _
  | none =>
    refine .bind ((reads_eligible m _ _).bland hr) fun selectable => ?_
    refine .bind ((reads_eligible m _ _).bland hr) fun manual_eligible => ?_
    refine .bind (bland_update hr fun _ => ⟨rfl, rfl⟩) fun _ => .ite (fun _ => bland_wait hr _) fun _ => ?_
    refine .bind (bland_takeQueued m now hr _) fun chosen => ?_
    split
    · exact .pure _
    · exact bland_dispatch m now hr _ _ _
    · refine .bind (bland_reserve m now hr _ _) fun chosen => ?_
      split
      · exact .pure _
      · exact bland_dispatch m now hr _ _ _

/-! ## Exceptions -/

theorem bland_latch (reservation : Option Reservation) (kind : ErrorKind) (exc : Failure) :
    Bland k h (latch reservation kind exc now) := by
  refine .bind ?_ fun _ => ?_
  · cases reservation with
    | none => exact .pure _
    | some r => exact (still_recordFailedCornerOnce _ _ _ _ _ none_reason_ne).bland hr
  · exact .bind (bland_update hr fun _ => ⟨rfl, rfl⟩) fun _ => .bind (bland_saveState hr) fun _ => .throw _

theorem bland_releaseOrLatch (state : Ledger) (kind : ErrorKind) (exc : Failure) :
    Bland k h (releaseOrLatch m state kind exc now) := by
  unfold releaseOrLatch
  split
  · refine .bind (.ite (fun _ => .pure _) fun _ => (reads_slotReusable _ _ m).bland hr) fun reusable => ?_
    refine .bind (.ite (fun _ => (reads_leftoverCornerGame _ _ m).bland hr) fun _ => .pure _)
      fun leftover => ?_
    exact .ite (fun _ => bland_release m now hr _ _) fun _ => bland_latch now hr _ _ _
  · exact bland_latch now hr _ _ _

theorem bland_tickFailed (exc : Failure) : Bland k h (tickFailed m now exc) := by
  refine .bind .get fun state => ?_
  split
  · exact bland_releaseOrLatch m now hr _ _ _
  · refine .bind (.handle (.bind (bland_commit m now hr _) fun _ => .pure _) fun _ => .pure _)
      fun verdict => ?_
    split
    · exact .bind (bland_saveState hr) fun _ => .pure _
    · exact bland_releaseOrLatch m now hr _ _ _
    · exact bland_releaseOrLatch m now hr _ _ _

theorem bland_tickTry : Bland k h (tickTry m now future) := by
  refine .bind (.handle (bland_manualStage m now hr) fun exc => ?_) fun stage => ?_
  · exact .bind (bland_tickFailed m now hr exc) fun _ => .pure _
  · split
    · exact .pure _
    · exact .handle (bland_resolve m _ hr _) fun exc => bland_tickFailed m _ hr exc
    · exact .handle (bland_tickSelect m now hr _ _) fun exc => bland_tickFailed m now hr exc

theorem bland_tickOpen (hi : h .inbox = false) : Bland k h (tickOpen m now) := by
  refine .bind (bland_importManualQueue now hr hi) fun future => .bind .get fun state => ?_
  refine .ite (fun _ => bland_wait hr _) fun _ => .bind ?_ fun parked => ?_
  · exact .ite (fun _ => (reads_heartbeat now).bland hr) fun _ => .pure _
  refine .bind (bland_update hr fun _ => ⟨rfl, rfl⟩) fun _ => .bind .get fun state => ?_
  exact .ite (fun _ => bland_wait hr _) fun _ => bland_tickTry m now hr _

end Timer

/-! ## Operations -/

theorem triple_weaken {m : Work α} (hm : Bland k h m) (hR : ∀ a s w, Carries s w → R a s w) :
    Works k h Carries m R fun _ _ _ => True :=
  (hm Carries rfl).post (fun a s w hp => hR a s w hp) fun _ _ _ _ => trivial

/-- Corners of the catalog are remembered; what was loaded is still there. -/
theorem triple_rememberCatalog (hr : h .rotation = true) (m : Manager) (now : Time) (state : Ledger) :
    Works k h (fun s w => s = state ∧ Latched now state.pending s w) (rememberCatalog m)
      (fun _ s w => s.pending = state.pending ∧ Latched now state.pending s w) fun _ _ _ => True := by
  refine triple_modify fun s w _ hp => ?_
  obtain ⟨rfl, hp⟩ := hp
  exact ⟨rfl, (loose_latched hr now s.pending).memory s _ w rfl (fun _ => le_rfl) hp⟩

theorem triple_tickLocked (hr : h .rotation = true) (hi : h .inbox = false) (hk : rotates k = true) (m : Manager) :
    Works k h (fun _ _ => True) (tickLocked m) (fun _ _ _ => True) fun _ _ _ => True := by
  have htail : ∀ now, Works k h Carries (tickOpen m now) (fun _ _ _ => True) fun _ _ _ => True := fun now =>
    triple_weaken (bland_tickOpen m now hr hi) fun _ _ _ _ => trivial
  refine triple_bind (triple_clock hr hk) fun now => triple_bind (triple_load hr hk m now) fun state => ?_
  refine triple_bind (triple_rememberCatalog hr m now state) fun _ => ?_
  refine triple_ite (fun _ => ?_) fun _ => (htail now).pre fun _ _ hp => hp.2.carries
  refine triple_bind (triple_autoReleaseLatch hr now state.pending) fun outcome => ?_
  refine triple_bind ((triple_saveState hr (stable_decided hr) fun _ _ => Decided.savable).raising fun _ _ _ _ => trivial) fun _ => ?_
  cases outcome with
  | some outcome => exact htail now
  | none => exact triple_get fun _ => triple_pure fun _ _ _ => trivial

/-- The ledger in memory, and the one that was loaded. -/
theorem loose_both (hr : h .rotation = true) (v : Ledger) : Loose h fun s w => Carries s w ∧ Carries v w where
  toFrame := .of_still hr
    (fun s w d hl hp => ⟨(loose_carries hr).still s w d hl hp.1, (loose_carries hr).still v w d hl hp.2⟩)
    fun s w t hp => ⟨(loose_carries hr).reading s w t hp.1, (loose_carries hr).reading v w t hp.2⟩
  memory s t w hb hrows hp := ⟨(loose_carries hr).memory s t w hb hrows hp.1, hp.2⟩

theorem triple_refuse (hr : h .rotation = true) (snapshot : Ledger) (exc : Failure)
    {R : Outcome → Ledger → Watch → Prop} :
    Works k h (fun s w => Carries s w ∧ Carries snapshot w) (refuse snapshot exc) R fun _ _ _ => True := by
  refine triple_bind ((triple_save hr (loose_both hr snapshot).stable fun s w hk hp => ?_).raising fun _ _ _ _ => trivial) fun _ => triple_fail
  refine Carries.savable hk ?_
  exact (loose_carries hr).memory snapshot _ w rfl (fun _ => le_rfl) hp.2

theorem triple_recoverReservation (hr : h .rotation = true) (m : Manager) (snapshot : Ledger) (r : Reservation)
    (now : Time) :
    Works k h (fun s w => Carries s w ∧ Carries snapshot w) (recoverReservation m snapshot r now) (fun _ _ _ => True)
      fun _ _ _ => True := by
  have hboth := loose_both hr snapshot
  refine triple_guard fun _ => ?_
  refine triple_bind ((.ite (fun _ => .pure _) fun _ => reads_ask rfl : Reads k h _) _ hboth.toFrame |>.raising fun _ _ _ _ => trivial) fun guard => ?_
  split
  · exact triple_fail
  · refine triple_bind (R := fun _ => Carries) (triple_handle ((?_ : Still k h _) _ hboth |>.post (fun _ _ _ hp => hp.1)
      fun _ _ _ hp => hp) fun exc => ?_) fun outcome => ?_
    · refine .bind (.ite (fun _ => .pure _) fun _ => still_commitVerifiedFailedStart (fun _ => hr) m r now)
        fun committed => ?_
      cases committed with
      | some outcome => exact .pure _
      | none => exact still_resolveReservation m r now
    · exact triple_guard fun _ => triple_refuse hr snapshot exc
    · exact triple_bind (triple_weaken (bland_saveState hr) fun _ _ _ hp => hp) fun _ => triple_pure fun _ _ _ => trivial

theorem triple_recoverLocked (hr : h .rotation = true) (hk : rotates k = true) (m : Manager) :
    Works k h (fun _ _ => True) (recoverLocked m) (fun _ _ _ => True) fun _ _ _ => True := by
  refine triple_bind (triple_clock hr hk) fun now => triple_bind (triple_load hr hk m now) fun snapshot => ?_
  refine triple_bind (R := fun _ s w => Carries s w ∧ Carries snapshot w) (triple_modify fun s w _ hp => ?_) fun _ => ?_
  · obtain ⟨rfl, hp⟩ := hp
    exact ⟨(loose_carries hr).memory s _ w rfl (fun _ => le_rfl) hp.carries, hp.carries⟩
  refine triple_guard fun _ => ?_
  refine triple_guard fun _ => ?_
  split
  · exact triple_fail
  · refine Triple.pre (P := Carries) (triple_weaken (.bind (bland_update hr ?_) fun _ =>
      .bind (bland_saveState hr) fun _ => .pure _) fun _ _ _ _ => trivial) fun _ _ hp => hp.1
    exact fun _ => ⟨rfl, rfl⟩
  · exact triple_recoverReservation hr m snapshot _ now
  · exact triple_recoverReservation hr m snapshot _ now

/-- What an operation does that has not started. -/
abbrev Begins (k : Call) (m : Work α) : Prop :=
  Works k (fun _ => false) (fun _ _ => True) m (fun _ _ _ => True) fun _ _ _ => True

theorem triple_locked {body refused : Work α} (hbody : ∀ h : Held Lock, h .rotation = true → h .inbox = false →
    Works k h (fun _ _ => True) body (fun _ _ _ => True) fun _ _ _ => True)
    (hrefused : Begins k refused) : Begins k (locking .rotation body refused) :=
  triple_locking rfl loose_true.stable (fun _ => hrefused)
    (hbody _ (update_self ..) (update_of_ne (by decide) ..))

/-! ## The inbox -/

/-- Work outside the rotation lock, of which nothing is asked. -/
abbrev Outside (k : Call) (h : Held Lock) (m : Work α) : Prop := Keeps k h (· = fun _ _ => True) m

theorem Reads.outside {m : Work α} (hm : Reads k h m) : Outside k h m := hm.weaken fun _ hP => hP ▸ loose_true.toFrame

theorem outside_load (hk : rotates k = false) (m : Manager) (now : Time) : Outside k h (load m now) := by
  refine .bind (.bind ?_ .ofExcept) fun x => ?_
  · rintro P rfl
    refine triple_ask loose_true.stable ?_
    rintro s w x w' - - ⟨⟨d, ⟨rfl, -⟩, rfl⟩, -⟩
    simp only [Watch.noted, hk, Bool.false_eq_true, if_false]
    exact ⟨Elsewhere.step ⟨w.disk, rfl, rfl⟩, trivial⟩
  have hmodify : ∀ g : Ledger → Ledger, Outside k h (modify g) := by
    rintro g P rfl
    exact triple_modify fun _ _ _ _ => trivial
  cases x with
  | none =>
    refine .bind ?_ fun v => .bind (hmodify _) fun _ => .pure _
    rintro P rfl
    exact (triple_freshLedger loose_true.toFrame m now).post (fun _ _ _ _ => trivial) fun _ _ _ hp => hp
  | some v => exact .bind (.ofExcept _) fun _ => .bind (hmodify _) fun _ => .pure _

section Inbox

variable (m : Manager) (state : Ledger) (game chosen : String) (trigger_at : Option Time) (resume_latest new_game : Bool)

theorem reads_readQueued : Reads k h (readQueued state) := .bind reads_readManualQueue fun _ => .pure _

theorem reads_alreadyScheduled : Reads k h (alreadyScheduled m state game trigger_at) := by
  unfold alreadyScheduled
  split
  · refine .bind (reads_readQueued state) fun queued => ?_
    dsimp only
    split
    · exact .ite (fun _ => .pure _) fun _ => .pure _
    · exact .pure _
  · exact .pure _

theorem reads_newRequest (now : Time) : Reads k h (newRequest now chosen trigger_at resume_latest new_game) := by
  have hwrite : ∀ request, Reads k h (writeManualQueue request) := fun _ => .bind (reads_ask rfl) .ofExcept
  have hprepare : ∀ request, Reads k h (prepare request) := fun _ => .bind (reads_ask rfl) .ofExcept
  refine .bind (reads_ask rfl) fun id => .ite (fun _ => ?_) fun _ => .bind (hwrite _) fun _ => .pure _
  refine .bind (.bind (reads_ask rfl) .ofExcept : Reads k h (recoverPrepared chosen)) fun recovered => ?_
  exact .bind (hprepare _) fun _ => .bind (hwrite _) fun _ => .pure _

theorem reads_requestFor (now : Time) : Reads k h (requestFor state now chosen trigger_at resume_latest new_game) := by
  refine .bind (reads_readQueued state) fun queued => ?_
  split
  · exact .ite (fun _ => .throw _) fun _ => .pure _
  · exact reads_newRequest chosen trigger_at resume_latest new_game now

theorem outside_queueLocked (hk : rotates k = false) :
    Outside k h (queueLocked m game trigger_at resume_latest new_game) := by
  refine .bind (reads_clock fun hyes => absurd (hk.symm.trans hyes) (by decide)).outside fun now => ?_
  refine .ite (fun _ => .throw _) fun _ => .bind (outside_load hk m now) fun state => ?_
  refine .bind (reads_alreadyScheduled m state game trigger_at).outside fun scheduled => ?_
  split
  · exact .pure _
  refine .ite (fun _ => .throw _) fun _ => .ite (fun _ => .throw _) fun _ => ?_
  refine .ite (fun _ => .throw _) fun _ => .bind (reads_eligible m _ _).outside fun selectable => ?_
  split
  · refine .bind (reads_requestFor state _ _ _ _ now).outside fun request => .bind ?_ fun _ => .pure _
    refine .ite (fun _ => Reads.outside ?_) fun _ => .pure _
    exact .bind (reads_ask rfl) .ofExcept
  · exact .throw _

theorem outside_cancelLocked (hk : rotates k = false) : Outside k h (cancelLocked m game) := by
  refine .bind (reads_clock fun hyes => absurd (hk.symm.trans hyes) (by decide)).outside fun now => ?_
  refine .bind (outside_load hk m now) fun state => ?_
  split
  · refine .bind reads_readManualQueue.outside fun x => ?_
    split
    · exact .ite (fun _ => .throw _) fun _ => .throw _
    · split
      · refine .ite (fun _ => .throw _) fun _ => ?_
        exact .bind (reads_unlinkManualQueue _).outside fun _ => .pure _
      · exact .throw _
  · exact .throw _

end Inbox

theorem triple_withInbox {m : Work α} (hm : ∀ h : Held Lock, Outside k h m) : Begins k (withInbox m) :=
  triple_locking rfl loose_true.stable (fun ht => nomatch ht) (hm _ _ rfl)

theorem reads_rotationEnabled : Reads k h rotationEnabled := .bind (reads_ask rfl) .ofExcept

theorem triple_tick (hk : rotates k = true) (m : Manager) : Begins k (tick m) := by
  refine triple_bind (reads_rotationEnabled _ loose_true.toFrame) fun _ => triple_ite (fun _ => triple_pure fun _ _ _ => trivial)
    fun _ => ?_
  exact triple_locked (fun h hr hi => triple_tickLocked hr hi hk m) (triple_pure fun _ _ _ => trivial)

theorem triple_recover (hk : rotates k = true) (m : Manager) : Begins k (recover m) := by
  refine triple_bind (reads_rotationEnabled _ loose_true.toFrame) fun _ => triple_ite (fun _ => triple_pure fun _ _ _ => trivial)
    fun _ => ?_
  exact triple_locked (fun h hr _ => triple_recoverLocked hr hk m) (triple_pure fun _ _ _ => trivial)

theorem triple_queueManual (hk : rotates k = false) (m : Manager) (game : String) (trigger_at : Option Time)
    (resume_latest new_game : Bool) : Begins k (queueManual m game trigger_at resume_latest new_game) := by
  refine triple_guard fun _ => ?_
  refine triple_guard fun _ => ?_
  refine triple_bind (reads_rotationEnabled _ loose_true.toFrame) fun _ =>
    triple_guard fun _ => ?_
  exact triple_withInbox fun h => outside_queueLocked m game trigger_at resume_latest new_game hk

theorem triple_cancelScheduledManual (hk : rotates k = false) (m : Manager) (game : String) :
    Begins k (cancelScheduledManual m game) := by
  refine triple_bind (reads_rotationEnabled _ loose_true.toFrame) fun _ =>
    triple_guard fun _ => ?_
  exact triple_withInbox fun h => outside_cancelLocked m game hk

/-! ## Runs -/

/-- Every operation keeps the contract. -/
theorem ensures_labelled (k : Call) (w : Watch) (hk : Kept w) :
    Ensures remembering restores (labelled k) (fun _ => false) w fun _ _ _ => True := by
  have hwork : Begins k k.work := by
    have hdone : ∀ {β : Type} {m : Work β} {f : β → Answer}, Begins k m → Begins k (do pure (f (← m))) := fun hm =>
      triple_bind hm fun _ => triple_pure fun _ _ _ => trivial
    cases k with
    | tick m => exact hdone (triple_tick rfl m)
    | recover m => exact hdone (triple_recover rfl m)
    | queue_manual m game trigger_at resume_latest new_game =>
      exact hdone (triple_queueManual rfl m game trigger_at resume_latest new_game)
    | cancel_scheduled_manual m game => exact hdone (triple_cancelScheduledManual rfl m game)
  exact ensures_label.mpr ((hwork Work.blank w hk trivial).mono fun _ _ _ _ => trivial)

theorem kept_nothing : Kept nothing where
  capped _ := ⟨Nat.zero_le _, trivial, Nat.zero_le _, (fun h => nomatch h), fun h => absurd rfl h⟩
  recorded _ := le_rfl
  booked _ _ h := nomatch h

/-- **Restore replays are capped.** In every run that forgets no replay, of any processes killed at any time: the
restore recovery of a request is replayed at most `AUTO_RESTORE_ATTEMPT_LIMIT` times, each replay after the backoff of
the one before; at most one exhausted row is recorded for it, not before the last of them, and a process that finds the
budget spent has recorded it when it has saved the ledger. -/
theorem replays_capped {s : Watched} (hs : Sys.Reach remembering labelled (Sys.start nothing) s) (id : RequestId) :
    Capped id s.data := by
  have hsound : Sys.Sound remembering restores (fun _ _ _ _ => True) s := Sys.Reach.sound kept_nothing ensures_labelled hs
  exact hsound.known.capped id

/-! ## Runs that are computed -/

/-- The request of the first slot. -/
def stranded : RequestId := .named "seed" 0 "chess"

/-- The plane shows the corner's game, and something is in flight. -/
def heldPlane : Plane :=
  { phase := .idle, operation := true, request_id := false, deadline_at := false, candidate := false, previous := false,
    retiring := false, active := some ⟨"chess", "runtime", "lease", 1⟩, receipt_terminal := none, queued := [] }

/-- Surroundings in which an execution fails, and its game stays on the plane. -/
def stuck (now : Time) : Sys.Server Ask Ask.Answer Disk
  | .execute _ request, d =>
    some (.error { text := "execution failed" }, { d with executed := request.request_id :: d.executed })
  | .observations _, d => some (.ok (if stranded ∈ d.executed then
      [{ rotation_request_id := some stranded, status := .failed, started_at := some 1 }] else []), d)
  | .plane _ _ _, d => some (some heldPlane, d)
  | .reconcile_failed_start _ _ _, d => some (.ok none, d)
  | .announced, d => some (none, d)
  | .restore_runner _, d => some (true, d)
  | .recover_failed_restore _, d => some ((), d)
  | q, d => answers now q d

theorem stuck_serves (now : Time) : Sys.Serves world (stuck now) := by
  intro q d x d' h
  unfold stuck at h
  split at h
  · cases h
    exact ⟨d.checkpoint, fun k hk => .inr ⟨k, hk, rfl⟩, rfl⟩
  · next corner =>
    cases h
    refine ⟨rfl, fun raw hraw id hid _ => ?_⟩
    split at hraw
    · next hexecuted =>
      rw [mem_singleton.mp hraw] at hid
      cases hid
      exact hexecuted
    · cases hraw
  case h_8 => exact (answers_careful now _ _ _ _ h).1
  all_goals
    cases h
    rfl

abbrev Surroundings : Type := Sys.Server (Call × Ask) (fun r => Ask.Answer r.2) Watch

/-- Surroundings that note what happens. -/
def seen (serve : Sys.Server Ask Ask.Answer Disk) : Surroundings := fun r w =>
  (serve r.2 w.disk).map fun y => (y.1, w.noted r.1 r.2 y.1 y.2)

theorem seen_serves (hserve : Sys.Serves world serve) :
    Sys.Serves watching (seen serve) := by
  intro r w x w' h
  obtain ⟨y, hy, he⟩ := Option.map_eq_some_iff.mp h
  cases he
  exact ⟨y.2, hserve _ _ _ _ hy, rfl⟩

/-- No replay is forgotten when the ledger is loaded now. -/
def remembered (w : Watch) : Bool :=
  !w.unsaved && w.disk.pending.all fun p =>
    w.replays p.request_id = [] || w.budget.any fun b => b.request_id = p.request_id

def isLoad : Ask → Bool
  | .load => true
  | _ => false

/-- Surroundings that note what happens, and let nobody forget a replay. -/
def recalled (serve : Sys.Server Ask Ask.Answer Disk) : Surroundings := fun r w =>
  if isLoad r.2 && !remembered w then none else seen serve r w

theorem recalled_serves (hserve : Sys.Serves world serve) :
    Sys.Serves remembering (recalled serve) := by
  rintro ⟨k, q⟩ w x w' h
  unfold recalled at h
  split at h
  · cases h
  next hload =>
  refine ⟨seen_serves hserve _ _ _ _ h, ?_⟩
  cases q <;> try trivial
  have hw : remembered w = true := by simpa [isLoad] using hload
  simp only [remembered, Bool.and_eq_true, Bool.not_eq_true'] at hw
  refine fun _ => ⟨hw.1, fun p hp hne => ?_⟩
  have hbudget := hw.2
  rw [hp] at hbudget
  simp only [Option.all_some, Bool.or_eq_true, decide_eq_true_eq, Option.any_eq_true] at hbudget
  exact hbudget.resolve_left hne

/-- The timer runs as process `p`. -/
def tickAt (serve : Surroundings) (p n : Nat) : List (Sys.Action (Call × Ask) (fun r => Ask.Answer r.2) Call Watch) :=
  [.spawn p (.tick plain), .go p n serve]

/-- A corner fails; its restore is replayed until the budget is spent, and once more is looked at. -/
def spentRun : List (Sys.Action (Call × Ask) (fun r => Ask.Answer r.2) Call Watch) :=
  tickAt (recalled (stuck 1)) 0 100 ++ tickAt (recalled (stuck 10)) 1 100 ++ tickAt (recalled (stuck 310)) 2 100 ++
    tickAt (recalled (stuck 1210)) 3 100 ++ tickAt (recalled (stuck 3910)) 4 100

theorem replays_capped_spentRun : ∃ s : Watched, Sys.Reach remembering labelled (Sys.start nothing) s ∧
    s.data.replays stranded = [1210, 310, 10] ∧ s.data.rows stranded = 1 ∧ Capped stranded s.data := by
  have hfair : ∀ a ∈ spentRun, a.Fair remembering := by
    simp only [spentRun, tickAt, cons_append, nil_append, forall_mem_cons, not_mem_nil,
      false_implies, implies_true, and_true]
    exact ⟨trivial, recalled_serves (stuck_serves 1), trivial, recalled_serves (stuck_serves 10), trivial,
      recalled_serves (stuck_serves 310), trivial, recalled_serves (stuck_serves 1210), trivial,
      recalled_serves (stuck_serves 3910)⟩
  refine ⟨_, Sys.acts_reach hfair _, ?_, ?_, replays_capped (Sys.acts_reach hfair _) stranded⟩
  · decide +kernel
  · decide +kernel

/-- The timer dies four times, each time when the restore was replayed and the ledger is not saved yet. -/
def forgottenRun : List (Sys.Action (Call × Ask) (fun r => Ask.Answer r.2) Call Watch) :=
  tickAt (seen (stuck 1)) 0 100 ++ tickAt (seen (stuck 10)) 1 9 ++ [.die 1] ++ tickAt (seen (stuck 10)) 2 9 ++ [.die 2] ++
    tickAt (seen (stuck 10)) 3 9 ++ [.die 3] ++ tickAt (seen (stuck 10)) 4 9

/-- A timer that dies after a replay replays again, without an end to it. -/
theorem replays_forgotten : ¬ ∀ s : Watched, Sys.Reach watching labelled (Sys.start nothing) s → ∀ id, Capped id s.data := by
  have hfair : ∀ a ∈ forgottenRun, a.Fair watching := by
    simp only [forgottenRun, tickAt, cons_append, nil_append, forall_mem_cons, not_mem_nil,
      false_implies, implies_true, and_true]
    exact ⟨trivial, seen_serves (stuck_serves 1), trivial, seen_serves (stuck_serves 10), trivial, trivial,
      seen_serves (stuck_serves 10), trivial, trivial, seen_serves (stuck_serves 10), trivial, trivial,
      seen_serves (stuck_serves 10)⟩
  intro hcapped
  have hfew := (hcapped _ (Sys.acts_reach hfair _) stranded).few
  revert hfew
  decide +kernel

end Docich.Rotation.Restore
