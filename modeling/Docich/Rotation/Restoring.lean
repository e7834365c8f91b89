import Docich.Rotation.Restores

/-!
# Work that replays no restore

- `Frame`, `Loose`: assertions that others keep;
- `Keeps`: work that keeps every assertion of a kind. `Reads` leaves the ledger in memory alone, `Still` its budget and
  its exhausted rows; `Bland` keeps what it carries, and may save it;
- `reads_*`, `still_*`: the parts of the timer that only look, observe or commit.
-/

namespace Docich.Rotation.Restore

open Durable.Locks
open Durable.Locks.Work (throw get modify ofExcept handle fold locking)

variable {α β : Type} {k : Call} {h : Held Lock} {P : Ledger → Watch → Prop} {w w' : Watch} {s t : Ledger}
  {id : RequestId} {b : AutoRestore} {p : Pending} {now : Time} {m : Manager}

/-! ## Assertions -/

/-- What a process does that runs the operation `k`. -/
abbrev Works (k : Call) (h : Held Lock) (P : Ledger → Watch → Prop) (m : Work α) (R : α → Ledger → Watch → Prop)
    (X : Failure → Ledger → Watch → Prop) : Prop := Triple (remembering.asked k) restores h P m R X

/-- An assertion that others keep, and whatever else happens to the disk and the clock. -/
structure Frame (h : Held Lock) (P : Ledger → Watch → Prop) : Prop where
  stable : ∀ s, restores.Stable h (P s)
  still : ∀ s w d, d.ledger = w.disk.ledger → P s w → P s { w with disk := d }
  reading : ∀ s w t, P s w → P s { w with reading := t }

/-- It only looks at the budget in memory, and holds of fewer exhausted rows. -/
structure Loose (h : Held Lock) (P : Ledger → Watch → Prop) : Prop extends Frame h P where
  memory : ∀ s t w, t.auto_restore = s.auto_restore → (∀ id, exhaustedRows id t ≤ exhaustedRows id s) → P s w → P t w

theorem stable_of_still {Q : Watch → Prop} (hr : h .rotation = true)
    (hQ : ∀ w d, d.ledger = w.disk.ledger → Q w → Q { w with disk := d }) : restores.Stable h Q := by
  intro h' w w' ha _ hs hq
  obtain ⟨d, hl, rfl⟩ := hs.1 (ha _ hr)
  exact hQ w d hl hq

variable (hr : h .rotation = true)

include hr in
theorem Frame.of_still (still : ∀ s w d, d.ledger = w.disk.ledger → P s w → P s { w with disk := d })
    (reading : ∀ s w t, P s w → P s { w with reading := t }) : Frame h P :=
  ⟨fun s => stable_of_still hr (still s), still, reading⟩

theorem loose_true : Loose h fun _ _ => True := ⟨⟨fun _ _ _ _ _ _ _ _ => trivial, fun _ _ _ _ _ => trivial,
  fun _ _ _ _ => trivial⟩, fun _ _ _ _ _ _ => trivial⟩

include hr

theorem loose_carries : Loose h Carries where
  toFrame := .of_still hr
    (fun s w d hl hp => ⟨fun b hb => Booked.congr (w := w) rfl rfl (hp.booked b hb), fun id => by
      rw [recorded_congr (w := w) hl]
      exact hp.rows id, hp.spent⟩)
    fun s w t hp => ⟨fun b hb => Booked.congr (w := w) rfl rfl (hp.booked b hb), hp.rows, hp.spent⟩
  memory s t w hb hrows hp := ⟨fun b h => hp.booked b (hb ▸ h), fun id => (hrows id).trans (hp.rows id), hp.spent⟩

theorem frame_exhausts (id : RequestId) : Frame h (Exhausts id) :=
  .of_still hr
    (fun s w d hl hp => ⟨hp.booked, hp.fresh, hp.row, fun other hne => by
      rw [recorded_congr (w := w) hl]
      exact hp.others other hne, hp.spent⟩)
    fun s w t hp => ⟨hp.booked, hp.fresh, hp.row, hp.others, hp.spent⟩

omit hr

/-! ## Work that keeps assertions -/

/-- Work that keeps every assertion of a kind. -/
def Keeps (k : Call) (h : Held Lock) (C : (Ledger → Watch → Prop) → Prop) (m : Work α) : Prop :=
  ∀ P, C P → Works k h P m (fun _ => P) fun _ => P

/-- Work that leaves the ledger in memory alone. -/
abbrev Reads (k : Call) (h : Held Lock) (m : Work α) : Prop := Keeps k h (Frame h) m

/-- Work that leaves the budget and the exhausted rows in memory alone. -/
abbrev Still (k : Call) (h : Held Lock) (m : Work α) : Prop := Keeps k h (Loose h) m

/-- Work that keeps what the ledger in memory carries. -/
abbrev Bland (k : Call) (h : Held Lock) (m : Work α) : Prop := Keeps k h (· = Carries) m

namespace Keeps

variable {C C' : (Ledger → Watch → Prop) → Prop} {m : Work α} {f : α → Work β}

theorem weaken (hC : ∀ P, C' P → C P) (hm : Keeps k h C m) : Keeps k h C' m := fun P hP => hm P (hC P hP)

theorem pure (a : α) : Keeps k h C (Pure.pure a : Work α) := fun _ _ => triple_ret

theorem throw (e : Failure) : Keeps k h C (throw e : Work α) := fun _ _ => triple_throw fun _ _ hp => hp

theorem bind (hm : Keeps k h C m) (hf : ∀ a, Keeps k h C (f a)) : Keeps k h C (m >>= f) :=
  fun P hP => triple_bind (hm P hP) fun a => hf a P hP

theorem get : Keeps k h C (get : Work Ledger) := fun _ _ _ _ hk hp => ⟨rfl, hk, hp⟩

theorem ofExcept (x : Except Failure α) : Keeps k h C (ofExcept x) :=
  fun _ _ => triple_ofExcept (fun _ _ _ _ hp => hp) fun _ _ _ _ hp => hp

theorem ite {c : Prop} [Decidable c] {m₁ m₂ : Work α} (h₁ : c → Keeps k h C m₁) (h₂ : ¬ c → Keeps k h C m₂) :
    Keeps k h C (if c then m₁ else m₂) := by
  split
  · next hc => exact h₁ hc
  · next hc => exact h₂ hc

theorem handle {g : Failure → Work α} (hm : Keeps k h C m) (hg : ∀ e, Keeps k h C (g e)) :
    Keeps k h C (m.handle g) :=
  fun P hP => triple_handle (hm P hP) fun e => hg e P hP

theorem fold {g : α → β → Work α} (hg : ∀ a b, Keeps k h C (g a b)) (a : α) (bs : List β) :
    Keeps k h C (fold g a bs) :=
  fun P hP => triple_fold fun a b => hg a b P hP

end Keeps

variable {m : Work α} {g : Ledger → Ledger} {q : Ask} {x : q.Answer} {row : FailedCorner}
    {reason : Option String}

theorem Reads.still (hm : Reads k h m) : Still k h m := hm.weaken fun _ hP => hP.toFrame

theorem Still.bland (hr : h .rotation = true) (hm : Still k h m) : Bland k h m :=
  hm.weaken fun _ hP => hP ▸ loose_carries hr

theorem Reads.bland (hr : h .rotation = true) (hm : Reads k h m) : Bland k h m := hm.still.bland hr

/-- Fields of the ledger in memory change that have nothing to do with restores. -/
theorem still_update (hg : ∀ s, (g s).auto_restore = s.auto_restore ∧ (g s).failed_corners = s.failed_corners) :
    Still k h (update g) :=
  fun _ hP => triple_modify fun s w _ hp => hP.memory s (g s) w (hg s).1
    (fun id => by rw [exhaustedRows, (hg s).2, exhaustedRows]) hp

include hr in
theorem bland_update (hg : ∀ s, (g s).auto_restore = s.auto_restore ∧
    (g s).failed_corners = s.failed_corners) : Bland k h (update g) := (still_update hg).bland hr

/-! ## Calls -/

/-- A call that says nothing about restores and leaves the ledger on file alone. -/
def unnoted (q : Ask) : Bool :=
  match q with
  | .clock | .load | .save _ | .restore_runner _ | .recover_failed_restore _ => false
  | _ => true

theorem unnoted_noted (hq : unnoted q = true) (k : Call) (x : q.Answer) (d : Disk) :
    w.noted k q x d = { w with disk := d } := by
  cases q <;> first | rfl | cases hq

theorem unlinked_ledger (d : Disk) (why : Removal) : (d.unlinked why).ledger = d.ledger := by
  unfold Disk.unlinked
  split <;> rfl

theorem unnoted_ledger (hq : unnoted q = true) {d d' : Disk} (hx : perform q d x d') :
    d'.ledger = d.ledger := by
  cases q <;> cases hq
  case uuid4 =>
    obtain ⟨n, -, -, rfl⟩ := hx
    rfl
  case write_queue request =>
    rcases hx with rfl | ⟨rfl, -⟩ <;> rfl
  case unlink_queue why =>
    rcases hx with rfl | ⟨rfl, -⟩
    · exact unlinked_ledger d why
    · rfl
  case read_queue | observations | recover_prepared =>
    rw [hx.1]
  case execute =>
    obtain ⟨c, -, rfl⟩ := hx
    rfl
  case prepare request =>
    cases x with
    | ok u =>
      rcases hx with ⟨rfl, -⟩ | rfl <;> rfl
    | error e =>
      rcases hx with rfl | rfl <;> rfl
  case publish request =>
    rcases hx with rfl | ⟨c, -, -, rfl⟩ <;> rfl
  all_goals rw [show d' = d from hx]

/-- What such a call does. -/
theorem unnoted_elsewhere (hq : unnoted q = true)
    (hx : (remembering.asked k).perform q w x w') : ∃ d, d.ledger = w.disk.ledger ∧ w' = { w with disk := d } := by
  obtain ⟨⟨d, hd, rfl⟩, -⟩ := hx
  exact ⟨d, unnoted_ledger hq hd, unnoted_noted hq k x d⟩

theorem reads_ask (hq : unnoted q = true) : Reads k h (Work.ask q) :=
  fun _ hP => triple_ask hP.stable fun s w x w' _ hp hx => by
    obtain ⟨d, hl, rfl⟩ := unnoted_elsewhere hq hx
    exact ⟨Elsewhere.step ⟨d, hl, rfl⟩, hP.still s w d hl hp⟩

/-- What a save notes: the ledger is on file, or the call has raised and nothing is noted. -/
theorem save_noted {x : Except Failure Unit} (hx : (remembering.asked k).perform (.save s) w x w') :
    w' = w.saved s ∨ w' = w ∧ ∃ e, x = .error e := by
  obtain ⟨⟨d, hd, rfl⟩, -⟩ := hx
  simp only [Watch.noted]
  rcases hd with rfl | ⟨rfl, he⟩
  · exact .inl (if_pos rfl)
  · split
    · next hl =>
      left
      simp only [Watch.saved, ← hl]
    · exact .inr ⟨rfl, he⟩

include hr

/-- A ledger that may be saved is saved, or the call raises. -/
theorem triple_save {state : Ledger} (hP : ∀ s, restores.Stable h (P s))
    (hs : ∀ s w, Kept w → P s w → Savable state w) :
    Works k h P (save state) (fun _ s w => Carries state w ∧ ∃ w₀, P s w₀)
      fun _ s w => P s w ∨ Carries state w ∧ ∃ w₀, P s w₀ := by
  refine triple_bind (R := fun x s w => (Carries state w ∧ ∃ w₀, P s w₀) ∨ P s w ∧ ∃ e, x = .error e)
    (triple_ask hP ?_) fun x => ?_
  · intro s w x w' hk hp hx
    rcases save_noted hx with rfl | ⟨rfl, he⟩
    · have hsaved := hs s w hk hp
      exact ⟨⟨fun hf => absurd (hr.symm.trans hf) (by decide), fun _ => hsaved⟩, .inl ⟨carries_saved hsaved, w, hp⟩⟩
    · exact ⟨⟨fun _ => ⟨w'.disk, rfl, rfl⟩, fun hk => hk⟩, .inr ⟨hp, he⟩⟩
  · refine triple_ofExcept (fun u hu s w hp => ?_) fun e _ s w hp => ?_
    · rcases hp with hc | ⟨-, e, he⟩
      · exact hc
      · rw [hu] at he
        cases he
    · exact hp.symm.imp_left And.left

/-- The ledger in memory is saved. -/
theorem triple_saveState (hP : ∀ s, restores.Stable h (P s))
    (hs : ∀ s w, Kept w → P s w → Savable s w) :
    Works k h P saveState (fun _ => Carries) fun _ s w => P s w ∨ Carries s w := by
  refine triple_get fun v => ?_
  refine (triple_save hr (P := fun s w => s = v ∧ P s w) (fun s => ?_) fun s w hk hp => ?_).post (fun _ s w hp => ?_) fun _ s w hp => ?_
  · exact fun h' w w' ha hk hm hp => ⟨hp.1, hP s h' w w' ha hk hm hp.2⟩
  · rw [← hp.1]
    exact hs s w hk hp.2
  · obtain ⟨hc, -, rfl, -⟩ := hp
    exact hc
  · rcases hp with hp | ⟨hc, -, rfl, -⟩
    · exact .inl hp.2
    · exact .inr hc

theorem bland_saveState : Bland k h saveState := by
  rintro P rfl
  exact (triple_saveState hr (loose_carries hr).stable fun s w hk hc => hc.savable hk).raising fun _ _ _ hp => hp.elim id id

omit hr

variable (hk : rotates k = true → h .rotation = true)

include hk in
/-- Only an operation with the rotation lock is seen reading the clock. -/
theorem reads_clock : Reads k h clock := by
  refine .bind (fun P hP => triple_ask hP.stable fun s w now w' _ hp hx => ?_) fun x => .ofExcept _
  obtain ⟨⟨d, rfl, rfl⟩, -⟩ := hx
  refine ⟨⟨fun hf => ⟨w.disk, rfl, ?_⟩, fun hkept => Kept.congr (w := w) rfl rfl rfl rfl rfl hkept⟩,
    hP.reading s w _ hp⟩
  have hno : ¬ rotates k = true := fun hyes => absurd ((hk hyes).symm.trans hf) (by decide)
  simp only [Watch.noted, if_neg hno]

/-! ## Looking around -/

section Reads

variable (corner : String) (id : RequestId)

theorem reads_readManualQueue : Reads k h readManualQueue := by
  refine .bind (reads_ask rfl) fun answer => .bind (.ofExcept _) fun x => ?_
  cases x with
  | none => exact .pure _
  | some request => exact .bind (.ofExcept _) fun _ => .pure _

theorem reads_observations : Reads k h (observations corner) := .bind (reads_ask rfl) .ofExcept

theorem reads_reconcileTerminalFailures : Reads k h (reconcileTerminalFailures corner) :=
  .bind (reads_ask rfl) .ofExcept

theorem reads_execute (request : Request) : Reads k h (execute corner request) :=
  .bind (reads_ask rfl) .ofExcept

theorem reads_unlinkManualQueue (why : Removal) : Reads k h (unlinkManualQueue why) :=
  .bind (reads_ask rfl) .ofExcept

theorem reads_heartbeat (now : Time) : Reads k h (heartbeatProvesParkedSlot now) := by
  refine .bind .get fun state => ?_
  split
  · refine .bind (reads_ask rfl) fun x => ?_
    split <;> exact .pure _
  · exact .pure _

theorem reads_resourcesReleased : Reads k h (resourcesReleased corner) := .bind (reads_ask rfl) .ofExcept

theorem reads_finishedOwner : Reads k h (finishedOwner corner id) := by
  refine .bind (reads_ask rfl) fun x => ?_
  cases x with
  | error e => exact .pure _
  | ok raws => exact .pure _

theorem reads_leftoverCornerGame (m : Manager) : Reads k h (leftoverCornerGame m corner id) := by
  unfold leftoverCornerGame
  split
  · exact .pure _
  · refine .bind (reads_ask rfl) fun x => ?_
    split
    · exact .pure _
    · exact .ite (fun _ => reads_finishedOwner corner id) fun _ => .pure _

theorem reads_slotReusable (m : Manager) : Reads k h (slotReusable m corner id) := by
  unfold slotReusable
  split
  · exact .pure _
  refine .bind (reads_ask rfl) fun x => ?_
  split
  · exact .pure _
  refine .ite (fun _ => .pure _) fun _ => .bind ?_ fun _ => ?_
  · exact .ite (fun _ => reads_finishedOwner corner id) fun _ => .pure _
  refine .ite (fun _ => .pure _) fun _ => .ite (fun _ => .pure _) fun _ => ?_
  refine .bind (reads_ask rfl) fun x => ?_
  split <;> exact .pure _

theorem reads_statePathBlocked (unretired : List String) : Reads k h (statePathBlocked unretired corner) :=
  .fold (fun _ _ => .bind (reads_ask rfl) fun _ => .pure _) _ _

theorem reads_eligible (m : Manager) (unretired : List String) (all : Bool) :
    Reads k h (eligible m unretired all) := by
  refine .fold (fun result c => ?_) _ _
  refine .ite (fun _ => .pure _) fun _ => .bind (reads_ask rfl) fun _ => ?_
  refine .ite (fun _ => .pure _) fun _ => .bind (reads_statePathBlocked _ _) fun _ => ?_
  refine .ite (fun _ => .pure _) fun _ => .ite (fun _ => .pure _) fun _ => ?_
  exact .bind (reads_ask rfl) fun _ => .pure _

end Reads

/-! ## Rows -/

theorem exhaustedRow_eq_false (h : row.reason_code ≠ "restore-recovery-exhausted")
    (id : RequestId) : exhaustedRow id row = false := by
  simp [exhaustedRow, h]

theorem lastRows_countP_le {rows : List FailedCorner} (hrow : exhaustedRow id row = false) :
    (lastRows FAILED_CORNER_LIMIT (rows ++ [row])).countP (exhaustedRow id) ≤ rows.countP (exhaustedRow id) := by
  refine ((List.drop_sublist _ _).countP_le).trans ?_
  simp [List.countP_append, hrow]

/-- The reason that a row gets. -/
theorem reason_ne (hreason : reason ≠ some "restore-recovery-exhausted")
    (resolution : Resolution) :
    reason.getD (if resolution = .released_unverified then RELEASED_REASON else "execution-or-state-unverified") ≠
      "restore-recovery-exhausted" := by
  cases reason with
  | some code => exact fun he => hreason (congrArg some he)
  | none =>
    split <;> decide

theorem still_recordFailedCorner (corner : String) (subject : Subject) (resolution : Resolution) (kind : ErrorKind)
    (now : Time) (hreason : reason ≠ some "restore-recovery-exhausted") :
    Still k h (recordFailedCorner corner subject resolution kind now reason) := by
  refine fun P hP => triple_modify fun s w _ hp => hP.memory s _ w ?_ (fun id => ?_) hp
  · rfl
  · exact lastRows_countP_le (exhaustedRow_eq_false (reason_ne hreason resolution) id)

theorem still_recordFailedCornerOnce (corner : String) (subject : Subject) (resolution : Resolution)
    (kind : ErrorKind) (now : Time) (hreason : reason ≠ some "restore-recovery-exhausted") :
    Still k h (recordFailedCornerOnce corner subject resolution kind now reason) :=
  .bind .get fun _ => .ite (fun _ => .pure _) fun _ =>
    still_recordFailedCorner corner subject resolution kind now hreason

theorem none_reason_ne : (none : Option String) ≠ some "restore-recovery-exhausted" := nofun

theorem release_reason_ne (base_unrestored : Bool) :
    (if base_unrestored then some "base-game-unrestored" else none) ≠ some "restore-recovery-exhausted" := by
  cases base_unrestored <;> decide

theorem still_releaseFailedCorner (m : Manager) (reservation : Pending) (kind : ErrorKind) (now : Time)
    (base_unrestored : Bool) : Still k h (releaseFailedCorner m reservation kind now base_unrestored) := by
  refine .bind (still_recordFailedCorner _ _ _ _ _ (release_reason_ne base_unrestored)) fun _ => ?_
  refine .bind (still_update fun s => ⟨rfl, rfl⟩) fun _ => ?_
  refine .bind (reads_ask rfl).still fun _ => .bind (reads_ask rfl).still fun _ => ?_
  exact .bind (still_update fun s => ⟨rfl, rfl⟩) fun _ => .pure _

/-! ## Observing and committing -/

theorem still_observeBusy (m : Manager) (corner : String) (raw : Observation) (found : Found) :
    Still k h (observeBusy m corner raw found) := by
  refine .bind .get fun state => ?_
  split
  · exact .pure _
  refine .ite (fun _ => ?_) fun _ => .pure _
  refine .bind (reads_slotReusable _ _ _).still fun _ => .ite (fun _ => ?_) fun _ => .pure _
  refine .bind (reads_ask rfl).still fun outcome => .ite (fun _ => ?_) fun _ => ?_
  · exact .bind (reads_ask rfl).still fun _ => .ite (fun _ => .pure _) fun _ => .pure _
  · exact .ite (fun _ => .pure _) fun _ => .pure _

theorem still_observeRow (m : Manager) (pending : Option Pending) (now : Time) (key : String × String) (found : Found)
    (raw : Observation) : Still k h (observeRow m pending now key found raw) := by
  refine .ite (fun _ => .throw _) fun _ => .bind ?_ fun absent => .bind ?_ fun _ => ?_
  · exact .ite (fun _ => (reads_ask rfl).still) fun _ => .pure _
  · split
    · exact .pure _
    · exact still_recordFailedCornerOnce _ _ _ _ _ fun he => absurd (Option.some.inj he) (by decide)
  refine .bind ?_ fun found => .bind (.ofExcept _) fun times => .bind ?_ fun _ => .pure _
  · exact .ite (fun _ => still_observeBusy m _ raw found) fun _ => .pure _
  · refine still_update fun s => ?_
    split
    · exact ⟨rfl, rfl⟩
    · split <;> exact ⟨rfl, rfl⟩

theorem still_observe (m : Manager) (now : Time) : Still k h (observe m now) := by
  refine .bind .get fun state => .fold (fun found key => ?_) _ _
  refine .bind (reads_reconcileTerminalFailures _).still fun reconciled => ?_
  refine .bind (reads_resourcesReleased _).still fun released => ?_
  refine .bind (reads_observations _).still fun raws => ?_
  exact .fold (fun found raw => still_observeRow m _ now key found raw) _ _

theorem still_commitReservation (r : Reservation) (raw : Observation) (now : Time) :
    Still k h (commitReservation r raw now) := by
  refine .bind (.ofExcept _) fun completed => .bind (.ofExcept _) fun started => ?_
  refine .bind (still_update fun s => ?_) fun _ => .bind (still_update fun s => ?_) fun _ => ?_
  · cases started <;> exact ⟨rfl, rfl⟩
  · split <;> exact ⟨rfl, rfl⟩
  · exact .bind (still_update fun s => ⟨rfl, rfl⟩) fun _ => .pure _

theorem still_handBack (m : Manager) (r : Reservation) (now : Time) : Still k h (handBack m r now) := by
  refine .ite (fun _ => ?_) fun _ => .bind (still_observe m now) fun found => .ite (fun _ => ?_) fun _ => ?_
  all_goals exact .bind (still_update fun s => ⟨rfl, rfl⟩) fun _ => .pure _

theorem still_resolveReservation (m : Manager) (r : Reservation) (now : Time) :
    Still k h (resolveReservation m r now) := by
  refine .ite (fun _ => .throw _) fun _ => .bind (reads_observations _).still fun raws => ?_
  refine .ite (fun _ => .throw _) fun _ => .bind (.ofExcept _) fun x => ?_
  cases x with
  | none => exact still_handBack m r now
  | some raw => exact .ite (fun _ => .throw _) fun _ => still_commitReservation r raw now

include hk

theorem reads_reconcileFailedStart (r : Reservation) (now : Time) :
    Reads k h (reconcileFailedStart r now) := by
  refine .bind (.bind (reads_ask rfl) .ofExcept) fun x => ?_
  split
  · refine .bind (reads_clock hk) fun seen => .ite (fun _ => .throw _) fun _ => ?_
    refine .bind (reads_resourcesReleased _) fun y => ?_
    split
    · exact .throw _
    · exact .pure _
  · exact .pure _

theorem still_commitVerifiedFailedStart (m : Manager) (r : Reservation)
    (now : Time) : Still k h (commitVerifiedFailedStart m r now) := by
  refine .ite (fun _ => .pure _) fun _ => ?_
  refine .bind (reads_reconcileFailedStart hk r now).still fun x => ?_
  cases x with
  | none => exact .pure _
  | some settled_at =>
    refine .bind (still_update fun s => ⟨rfl, rfl⟩) fun _ => ?_
    exact .bind (still_resolveReservation m r settled_at) fun _ => .pure _

end Docich.Rotation.Restore
