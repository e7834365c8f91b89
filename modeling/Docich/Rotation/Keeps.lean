import Docich.Rotation.Quiet

/-!
# What the timer does to a request

The work under the rotation lock, from the release of a failed corner to `tick` and `recover`: the ledger in memory can
be saved at all times (`Fits`), and a pending request leaves it only once the executor was called with it (`Owns`,
`Seen`). An exception finds the ledger as it can be saved.
-/

namespace Docich.Rotation

open Durable.Locks List Function Option
open Durable.Locks.Work (throw get modify ofExcept handle fold locking)

variable {α β : Type} {h : Held Lock} {P : Ledger → Disk → Prop} {id : RequestId} {d d' : Disk} {s t : Ledger} {m : Manager}

/-! ## Ledgers in memory -/

/-- The ledger in memory can be saved, and the request is pending in it. -/
def Owns (p : Pending) (s : Ledger) (d : Disk) : Prop := Fits s d ∧ s.pending = some p

variable (hr : h .rotation = true)

include hr in
theorem frame_owns (p : Pending) : Frame h (Owns p) where
  stable _ h' d d' ha hk hm hp := ⟨stable_fits hr h' d d' ha hk hm hp.1, hp.2⟩
  places _ _ _ h₁ h₂ h₃ hp := ⟨hp.1.places h₁ h₂ h₃, h₁.trans hp.2⟩

/-- The ledger in memory has the requests of the one on disk. -/
structure Same (s : Ledger) (d : Disk) : Prop where
  queued : d.queued = s.queued_manual
  pending : d.pending = s.pending
  manual : s.manual_pending = none

theorem Same.fits (hs : Same s d) : Fits s d where
  kept id hi := by
    rcases hi with ⟨q, hq, he⟩ | ⟨p, hp, he⟩
    · exact .inl ⟨q, hs.queued.symm.trans hq, he⟩
    · exact .inr (.inl ⟨p, hs.pending.symm.trans hp, he⟩)
  queued q hq := hs.queued.trans hq
  pending p hp := .inl ⟨p, hs.pending.trans hp, rfl⟩
  manual := hs.manual

include hr in
theorem frame_same : Frame h Same where
  stable _ := stable_of_ledger hr fun _ _ hl _ hs =>
    ⟨(queued_congr hl).trans hs.queued, (pending_congr hl).trans hs.pending, hs.manual⟩
  places _ _ _ h₁ h₂ h₃ hs := ⟨hs.queued.trans h₂.symm, hs.pending.trans h₁.symm, h₃.trans hs.manual⟩

theorem same_saved (hm : s.manual_pending = none) : Same s { d with ledger := some s } := ⟨rfl, rfl, hm⟩

theorem Fits.saved (hs : Fits s d) : Fits s { d with ledger := some s } := (same_saved hs.manual).fits

variable {p : Pending} {X : Failure → Ledger → Disk → Prop} {raws : List Observation}
    {raw : Observation} {w : Work α}

/-- A pending request that the executor was called with may be dropped. -/
theorem Fits.drop (hs : Fits s d) (hp : s.pending = some p) (he : Seen p.request_id d) (hq : t.pending = none)
    (h₂ : t.queued_manual = s.queued_manual) (h₃ : t.manual_pending = s.manual_pending) : Fits t d where
  kept id hi := by
    rcases hs.kept id hi with ⟨q, hqueued, hid⟩ | ⟨p', hp', rfl⟩ | hx
    · exact .inl ⟨q, h₂.trans hqueued, hid⟩
    · rw [hp] at hp'
      cases hp'
      exact .inr (.inr (he hi))
    · exact .inr (.inr hx)
  queued q hqueued := hs.queued q (h₂.symm.trans hqueued)
  pending p' hp' := by
    rw [hq] at hp'
    cases hp'
  manual := h₃.trans hs.manual

/-- A reservation was committed, or everything is as it was. -/
def Decided (P : Ledger → Disk → Prop) (o : Option α) (s : Ledger) (d : Disk) : Prop := Fits s d ∧ (o = none → P s d)

theorem Decided.none (hs : Fits s d) (hp : P s d) : Decided P (none : Option α) s d := ⟨hs, fun _ => hp⟩

theorem Decided.some {o : α} (hs : Fits s d) : Decided P (some o) s d := ⟨hs, fun he => nomatch he⟩

/-! ## Saving -/

include hr

/-- The ledger is saved, or the call raises; either way it can be saved again. -/
theorem triple_saveState (hP : Frame h P) (hf : ∀ s d, P s d → Fits s d)
    (hs : ∀ s d, P s d → P s { d with ledger := some s }) :
    Does h P saveState (fun _ s d => P s d ∧ d.ledger = some s) fun _ => P := by
  refine triple_get fun v => ?_
  refine triple_bind (R := fun x s d => s = v ∧ P s d ∧ (x = .ok () → d.ledger = some s)) (triple_ask (fun s => ?_) ?_)
    fun x => ?_
  · intro h' d d' ha hk hm hp
    exact ⟨hp.1, hP.stable s h' d d' ha hk hm hp.2⟩
  · rintro s d x d' - ⟨rfl, hp⟩ ⟨hx, -⟩
    rcases hx with rfl | ⟨rfl, e, rfl⟩
    · exact ⟨.save s hr (hf s d hp), rfl, hs s d hp, fun _ => rfl⟩
    · exact ⟨.stay, rfl, hp, fun he => by cases he⟩
  · refine triple_ofExcept (fun u hu s d hp => ⟨hp.2.1, hp.2.2 hu⟩) fun _ _ s d hp => hp.2.1

theorem triple_saveFits : Does h Fits saveState (fun _ => Fits) fun _ => Fits :=
  (triple_saveState hr (frame_fits hr) (fun _ _ hs => hs) fun _ _ hs => hs.saved).post (fun _ _ _ hp => hp.1) fun _ _ _ hp => hp

omit hr

/-- Other fields of the ledger in memory change. -/
theorem triple_update (hP : Frame h P) {g : Ledger → Ledger}
    (hg : ∀ s, (g s).pending = s.pending ∧ (g s).queued_manual = s.queued_manual ∧
      (g s).manual_pending = s.manual_pending) :
    Does h P (update g) (fun _ => P) X :=
  triple_modify fun s d _ hp => hP.places s (g s) d (hg s).1 (hg s).2.1 (hg s).2.2 hp

include hr

theorem triple_wait (reason : String) :
    Does h Fits (wait reason) (fun _ => Fits) fun _ => Fits := by
  refine triple_bind (triple_update (frame_fits hr) fun _ => ⟨rfl, rfl, rfl⟩) fun _ => ?_
  exact triple_bind (triple_saveFits hr) fun _ => triple_ret

/-! ## Releasing a failed corner -/

theorem triple_releaseFailedCorner (p : Pending) (kind : ErrorKind) (now : Time) (b : Bool) :
    Does h (fun s d => Owns p s d ∧ Seen p.request_id d) (releaseFailedCorner m p kind now b) (fun _ => Fits)
      fun _ s d => Owns p s d ∧ Seen p.request_id d := by
  have hframe : Frame h fun s d => Owns p s d ∧ Seen p.request_id d := (frame_owns hr p).and (stable_seen hr)
  refine triple_bind (quiet_recordFailedCorner _ _ _ _ _ _ _ hframe) fun _ => ?_
  refine triple_bind (quiet_markReleasedRequest _ _ _ _ _ hframe) fun _ => ?_
  refine triple_bind (Quiet.ask (Ask.settle_released_failure p.corner p.request_id) (fun _ _ _ hx => hx) _ hframe) fun _ => ?_
  refine triple_bind (Quiet.ask (Ask.release_program_owner p.corner) (fun _ _ _ hx => hx) _ hframe) fun _ => ?_
  refine triple_bind (R := fun _ => Fits) (triple_modify fun s d _ hp => ?_) fun _ => triple_ret
  exact hp.1.1.drop hp.1.2 hp.2 rfl rfl rfl

omit hr

/-! ## Committing a reservation -/

theorem mapM_mem {f : α → Except Failure β} {g : β → α} (hf : ∀ a b, f a = .ok b → g b = a) {as : List α} {bs : List β}
    (hm : as.mapM f = .ok bs) : ∀ b ∈ bs, g b ∈ as := by
  induction as generalizing bs with
  | nil =>
    cases hm
    simp
  | cons a as ih =>
    rw [mapM_cons] at hm
    cases ha : f a with
    | error e =>
      rw [ha] at hm
      cases hm
    | ok b =>
      cases has : as.mapM f with
      | error e =>
        rw [ha, has] at hm
        cases hm
      | ok rest =>
        rw [ha, has] at hm
        cases hm
        intro c hc
        rcases mem_cons.mp hc with rfl | hc
        · rw [hf a c ha]
          exact mem_cons_self
        · exact mem_cons_of_mem _ (ih has c hc)

theorem latestRow_mem (hl : latestRow raws = .ok (some raw)) : raw ∈ raws := by
  unfold latestRow at hl
  cases hm : raws.mapM fun raw => do
      let times ← stamps raw
      Pure.pure ((times.max?).getD (-1), raw) with
  | error e =>
    rw [hm] at hl
    cases hl
  | ok stamped =>
    rw [hm] at hl
    have hmem := mapM_mem (g := Prod.snd) (fun a b hb => by
      cases hs : stamps a with
      | error e =>
        rw [hs] at hb
        cases hb
      | ok times =>
        rw [hs] at hb
        cases hb
        rfl) hm
    -- the fold keeps one of the rows
    have hfold : ∀ (f : Option (Time × Observation) → Time × Observation → Option (Time × Observation)),
        (∀ best row, f best row = best ∨ f best row = some row) → ∀ (rows : List (Time × Observation)) best row,
        rows.foldl f best = some row → best = some row ∨ row ∈ rows := by
      intro f hf rows
      induction rows with
      | nil => exact fun best row hb => .inl hb
      | cons first rows ih =>
        intro best row hb
        rcases ih _ _ hb with hb | hb
        · rcases hf best first with he | he
          · exact .inl (he.symm.trans hb)
          · exact .inr (some.inj (he.symm.trans hb) ▸ mem_cons_self)
        · exact .inr (mem_cons_of_mem _ hb)
    have hl : (stamped.foldl _ none).map Prod.snd = some raw := Except.ok.inj hl
    obtain ⟨row, hrow, rfl⟩ := map_eq_some_iff.mp hl
    refine (hfold _ (fun best row => ?_) stamped none row hrow).elim (fun hn => by cases hn) (hmem row)
    cases best with
    | none => exact .inr rfl
    | some b =>
      dsimp only
      split
      · exact .inr rfl
      · exact .inl rfl

theorem mem_ownedBy (hm : raw ∈ ownedBy id raws) :
    raw ∈ raws ∧ raw.rotation_request_id = some id := by
  simpa [ownedBy] using hm

section Reservations

variable {p : Pending} (hr : h .rotation = true) (hP : Frame h P) (hown : ∀ s d, P s d → Owns p s d)

include hr hP hown

theorem triple_commitReservation (raw : Observation) (now : Time) :
    Does h (fun s d => P s d ∧ Seen p.request_id d) (commitReservation p.reservation raw now) (fun _ => Fits)
      fun _ => P := by
  have hframe : Frame h fun s d => P s d ∧ Seen p.request_id d := hP.and (stable_seen hr)
  refine triple_bind (R := fun _ s d => P s d ∧ Seen p.request_id d)
    (triple_ofExcept (fun _ _ _ _ hp => hp) fun _ _ _ _ hp => hp.1) fun completed => ?_
  refine triple_bind (R := fun _ s d => P s d ∧ Seen p.request_id d)
    (triple_ofExcept (fun _ _ _ _ hp => hp) fun _ _ _ _ hp => hp.1) fun started => ?_
  refine triple_bind (triple_update hframe ?_) fun _ => ?_
  · intro s
    cases started <;> exact ⟨rfl, rfl, rfl⟩
  refine triple_bind (R := fun _ => Fits) (triple_modify fun s d _ hp => ?_) fun _ => ?_
  · exact (hown s d hp.1).1.drop (hown s d hp.1).2 hp.2 rfl rfl rfl
  exact triple_bind (triple_update (frame_fits hr) fun _ => ⟨rfl, rfl, rfl⟩) fun _ => triple_ret

omit hr in
theorem triple_handBack (now : Time) : Does h P (handBack m p.reservation now) (fun _ => Fits) fun _ => P := by
  have hquiet : Quiet h (handBack m p.reservation now) := by
    unfold handBack
    refine .bind (quiet_observe m now) fun found => .ite (fun _ => ?_) fun _ => ?_
    · refine .bind (.update ?_) fun _ => .pure _
      exact fun _ => ⟨rfl, rfl, rfl⟩
    · refine .bind (.update ?_) fun _ => .pure _
      exact fun _ => ⟨rfl, rfl, rfl⟩
  exact (hquiet P hP).post (fun _ s d hp => (hown s d hp).1) fun _ _ _ hp => hp

theorem triple_resolveReservation (now : Time) :
    Does h P (resolveReservation m p.reservation now) (fun _ => Fits) fun _ => P := by
  refine triple_ite (fun _ => triple_throw fun _ _ hp => hp) fun _ => ?_
  refine triple_bind (triple_observations hP _) fun raws => ?_
  refine triple_ite (fun _ => triple_throw fun _ _ hp => hp.1) fun _ => ?_
  refine triple_bind (R := fun x s d => P s d ∧ ∀ raw, x = some raw → Seen p.request_id d)
    (triple_ofExcept (fun x hx s d hp => ⟨hp.1, fun raw he => ?_⟩) fun _ _ _ _ hp => hp.1) fun x => ?_
  · subst he
    obtain ⟨hmem, hid⟩ := mem_ownedBy (latestRow_mem hx)
    exact hp.2 raw hmem p.request_id hid
  cases x with
  | none => exact (triple_handBack hP hown now).pre fun _ _ hp => hp.1
  | some raw =>
    refine triple_ite (fun _ => triple_throw fun _ _ hp => hp.1) fun _ => ?_
    exact (triple_commitReservation hr hP hown raw now).pre fun _ _ hp => ⟨hp.1, hp.2 raw rfl⟩

/-- A start that failed is committed, or nothing happens. -/
theorem triple_commitVerifiedFailedStart (now : Time) :
    Does h P (commitVerifiedFailedStart m p.reservation now) (Decided P) fun _ => P := by
  refine triple_ite (fun _ => triple_pure fun s d hp => .none (hown s d hp).1 hp) fun _ => ?_
  refine triple_bind (quiet_reconcileFailedStart _ _ _ hP) fun x => ?_
  cases x with
  | none => exact triple_pure fun s d hp => .none (hown s d hp).1 hp
  | some settled_at =>
    refine triple_bind (triple_update hP fun _ => ⟨rfl, rfl, rfl⟩) fun _ => ?_
    exact triple_bind (triple_resolveReservation hr hP hown settled_at) fun _ => triple_pure fun _ _ hp => .some hp

end Reservations

/-! ## The latch -/

include hr

theorem triple_runAutoRestoreRecovery (p : Pending) (now : Time) :
    Does h (Owns p) (runAutoRestoreRecovery m p now) (Decided (Owns p)) fun _ => Owns p := by
  have hframe := frame_owns hr p
  have hnone : ∀ s d, Owns p s d → Decided (Owns p) (none : Option Outcome) s d := fun _ _ hp => .none hp.1 hp
  refine triple_bind (Quiet.ask (Ask.restore_runner p.corner) (fun _ _ _ hx => hx) _ hframe) fun runner => ?_
  split
  · exact triple_pure hnone
  refine triple_bind (Quiet.get _ hframe) fun state => ?_
  refine triple_bind (triple_update hframe fun _ => ⟨rfl, rfl, rfl⟩) fun _ => ?_
  split
  · split
    · refine triple_bind (triple_update hframe fun _ => ⟨rfl, rfl, rfl⟩) fun _ => ?_
      exact triple_bind (quiet_recordFailedCorner _ _ _ _ _ _ _ hframe) fun _ => triple_pure hnone
    · exact triple_pure hnone
  · refine triple_bind (Quiet.ask (Ask.recover_failed_restore p.corner) (fun _ _ _ hx => hx) _ hframe) fun _ => ?_
    refine triple_bind (triple_update hframe fun _ => ⟨rfl, rfl, rfl⟩) fun _ => ?_
    exact triple_handle (triple_commitVerifiedFailedStart hr hframe (fun _ _ hp => hp) now) fun _ => triple_pure hnone

theorem triple_releaseLatched (p : Pending) (kind : ErrorKind) (now : Time) :
    Does h (Owns p) (releaseLatched m p kind now) (Decided (Owns p)) fun _ => Owns p := by
  have hframe := frame_owns hr p
  have hnone : ∀ s d, Owns p s d → Decided (Owns p) (none : Option Outcome) s d := fun _ _ hp => .none hp.1 hp
  refine triple_bind (quiet_leftoverCornerGame _ _ _ _ hframe) fun leftover => ?_
  refine triple_bind (R := Decided (Owns p)) ?_ fun replayed => ?_
  · split
    · exact triple_runAutoRestoreRecovery hr p now
    · exact triple_pure hnone
  cases replayed with
  | some outcome => exact triple_pure fun _ _ hp => .some hp.1
  | none =>
    refine triple_bind ((triple_slotReusable hr hframe m p.corner p.request_id).pre fun _ _ hp => hp.2 rfl)
      fun reusable => ?_
    split
    · next hb =>
      refine triple_bind ((triple_releaseFailedCorner hr p kind now leftover).mono
        (fun _ _ hp => ⟨hp.1, hp.2 hb⟩) (fun _ _ _ hp => hp) fun _ _ _ hp => hp.1) fun _ => ?_
      exact triple_pure fun _ _ hp => .some hp
    · refine triple_bind ((quiet_recordFailedCornerOnce _ _ _ _ _ _ _ hframe).pre fun _ _ hp => hp.1) fun _ => ?_
      exact triple_pure hnone

variable (now : Time) (eligible : List String) (future : Option Request) (manual_eligible : List String)

theorem triple_autoReleaseLatch :
    Does h Fits (autoReleaseLatch m now) (fun _ => Fits) fun _ => Fits := by
  refine triple_get fun state => ?_
  split
  · next p hpending hmanual =>
    have hstart : ∀ s d, (s = state ∧ Fits s d) → Owns p s d := by
      rintro s d ⟨rfl, hs⟩
      exact ⟨hs, hpending⟩
    refine Triple.pre ?_ hstart
    split
    · exact triple_pure fun _ _ hp => hp.1
    refine triple_bind (triple_handle (triple_commitVerifiedFailedStart hr (frame_owns hr p) (fun _ _ hp => hp) now)
      fun _ => triple_pure fun _ _ hp => .none hp.1 hp) fun committed => ?_
    cases committed with
    | some outcome => exact triple_pure fun _ _ hp => hp.1
    | none =>
      exact (triple_releaseLatched hr p _ now).mono (fun _ _ hp => hp.2 rfl) (fun _ _ _ hp => hp.1)
        fun _ _ _ hp => hp.1
  · exact triple_pure fun _ _ hp => hp.2

/-! ## Exceptions -/

theorem triple_latch (reservation : Option Reservation) (kind : ErrorKind) (exc : Failure)
    (now : Time) {R : Outcome → Ledger → Disk → Prop} :
    Does h Fits (latch reservation kind exc now) R fun _ => Fits := by
  have hframe := frame_fits hr
  refine triple_bind (R := fun _ => Fits) ?_ fun _ => ?_
  · cases reservation with
    | none => exact triple_ret
    | some r => exact quiet_recordFailedCornerOnce _ _ _ _ _ _ _ hframe
  refine triple_bind (triple_update hframe fun _ => ⟨rfl, rfl, rfl⟩) fun _ => ?_
  exact triple_bind (triple_saveFits hr) fun _ => triple_throw fun _ _ hp => hp

/-- `state` is the ledger that the handler has found; only other fields may have changed since. -/
theorem triple_releaseOrLatch (state : Ledger) (kind : ErrorKind) (exc : Failure) (now : Time) :
    Does h (fun s d => Fits s d ∧ s.pending = state.pending) (releaseOrLatch m state kind exc now) (fun _ => Fits)
      fun _ => Fits := by
  unfold releaseOrLatch
  split
  · next p hpending hmanual =>
    have hframe := frame_owns hr p
    refine Triple.pre (P := Owns p) ?_ fun s d hp => ⟨hp.1, hp.2.trans hpending⟩
    have hreusable : Does h (Owns p)
        (if kind.ledger then Pure.pure false else slotReusable m p.corner p.request_id)
        (fun b s d => Owns p s d ∧ (b = true → Seen p.request_id d)) fun _ => Fits := by
      split
      · exact triple_pure fun _ _ hp => ⟨hp, fun hb => nomatch hb⟩
      · exact (triple_slotReusable hr hframe m p.corner p.request_id).raising
          fun _ _ _ hp => hp.1
    refine triple_bind hreusable fun reusable => ?_
    have hleftover : Does h (fun s d => Owns p s d ∧ (reusable = true → Seen p.request_id d))
        (if reusable then leftoverCornerGame m p.corner p.request_id else Pure.pure true)
        (fun b s d => Owns p s d ∧ (b = false → Seen p.request_id d)) fun _ => Fits := by
      split
      · next hb =>
        have hseen : Frame h fun s d => Owns p s d ∧ Seen p.request_id d := hframe.and (stable_seen hr)
        exact (quiet_leftoverCornerGame _ _ _ _ hseen).mono (fun _ _ hp => ⟨hp.1, hp.2 hb⟩)
          (fun _ _ _ hp => ⟨hp.1, fun _ => hp.2⟩) fun _ _ _ hp => hp.1.1
      · exact triple_pure fun _ _ hp => ⟨hp.1, fun hb => nomatch hb⟩
    refine triple_bind hleftover fun leftover => ?_
    split
    · next hb =>
      have hb : leftover = false := by simpa using hb
      refine triple_bind ((triple_releaseFailedCorner hr p kind now false).mono (fun _ _ hp => ⟨hp.1, hp.2 hb⟩)
        (fun _ _ _ hp => hp) fun _ _ _ hp => hp.1.1) fun _ => ?_
      exact triple_bind (triple_saveFits hr) fun _ => triple_ret
    · exact (triple_latch hr _ kind exc now).pre fun _ _ hp => hp.1.1
  · exact (triple_latch hr _ kind exc now).pre fun _ _ hp => hp.1

theorem triple_tickFailed (exc : Failure) :
    Does h Fits (tickFailed m now exc) (fun _ => Fits) fun _ => Fits := by
  refine triple_get fun state => ?_
  split
  · exact (triple_releaseOrLatch hr state _ exc now).pre fun s d hp => ⟨hp.2, by rw [hp.1]⟩
  next r hreservation =>
  have hmanual : ∀ s d, (s = state ∧ Fits s d) → ∃ p, state.pending = some p ∧ r = p.reservation ∧ Owns p s d := by
    rintro s d ⟨rfl, hs⟩
    unfold reservationOf at hreservation
    rw [hs.manual] at hreservation
    split at hreservation
    · next p hp _ =>
      cases hreservation
      exact ⟨p, hp, rfl, hs, hp⟩
    · next hm =>
      cases hm
    · cases hreservation
  intro s d hk hp
  obtain ⟨p, hpending, rfl, howns⟩ := hmanual s d hp
  refine (?_ : Does h (Owns p) _ (fun _ => Fits) fun _ => Fits) s d hk howns
  have hverdict : Does h (Owns p)
      (Work.handle (do
        let outcome ← commitVerifiedFailedStart m p.reservation now
        Pure.pure (Except.ok outcome : Except Failure (Option Outcome))) fun e => Pure.pure (.error e))
      (fun v s d => Fits s d ∧ ((∀ o, v ≠ .ok (some o)) → s.pending = some p)) fun _ => Fits := by
    refine triple_handle (triple_bind
      (triple_commitVerifiedFailedStart hr (frame_owns hr p) (fun _ _ hp => hp) now) fun o => ?_)
      fun e => triple_pure fun _ _ hp => ⟨hp.1, fun _ => hp.2⟩
    refine triple_pure fun _ _ hp => ⟨hp.1, fun hne => (hp.2 ?_).2⟩
    cases o with
    | none => rfl
    | some o => exact absurd rfl (hne o)
  refine triple_bind hverdict fun verdict => ?_
  split
  · exact triple_bind ((triple_saveFits hr).pre fun _ _ hp => hp.1) fun _ => triple_ret
  · exact (triple_releaseOrLatch hr state _ exc now).pre fun s d hp =>
      ⟨hp.1, (hp.2 fun o he => by cases he).trans hpending.symm⟩
  · exact (triple_releaseOrLatch hr state _ exc now).pre fun s d hp =>
      ⟨hp.1, (hp.2 fun o he => by cases he).trans hpending.symm⟩

omit hr

/-! ## The inbox -/

theorem stable_inbox (hi : h .inbox = true) (x : Option Request) : moves.Stable h fun d => d.inbox = x := by
  intro h' d d' ha _ hm hx
  exact (Move.inbox_kept hm (ha _ hi)).1.trans hx

theorem triple_readManualQueue (hP : Frame h P) :
    Does h P readManualQueue (fun x s d => P s d ∧ d.inbox = x) fun _ => P := by
  refine triple_bind (R := fun x s d => P s d ∧ ∀ q, x = .ok q → d.inbox = q) (triple_ask hP.stable ?_) fun x => ?_
  · rintro s d x d' - hp ⟨⟨rfl, hx⟩, -⟩
    refine ⟨.stay, hp, fun q hq => ?_⟩
    rcases hx with ⟨e, rfl⟩ | rfl
    · cases hq
    · exact Except.ok.inj hq
  refine triple_bind (R := fun x s d => P s d ∧ d.inbox = x)
    (triple_ofExcept (fun q hq _ _ hp => ⟨hp.1, hp.2 q hq⟩) fun _ _ _ _ hp => hp.1) fun x => ?_
  cases x with
  | none => exact triple_pure fun _ _ hp => hp
  | some q =>
    refine triple_bind (R := fun _ s d => P s d ∧ d.inbox = some q)
      (triple_ofExcept (fun _ _ _ _ hp => hp) fun _ _ _ _ hp => hp.1) fun _ => triple_pure fun _ _ hp => hp

/-- The ledger in memory is that of the disk, and the inbox is empty when its manual request is due. -/
def Ready (now : Time) (s : Ledger) (d : Disk) : Prop :=
  Same s d ∧ ∀ q, d.queued = some q → q.trigger_at.all (· ≤ now) = true → d.inbox = none

include hr in
theorem frame_ready : Frame h (Ready now) := by
  refine (frame_same hr).and fun h' d d' ha _ hm hdue q hq htrigger => ?_
  have hf := apart_rotation hr ha
  have hq : d.queued = some q := (queued_congr (Move.ledger_eq hm hf).1).symm.trans hq
  refine Move.inbox_eq hm hf (hdue q hq htrigger) ?_
  rw [hq]
  exact fun he => nomatch he

theorem Ready.fits {now : Time} (hs : Ready now s d) : Fits s d := hs.1.fits

include hr in
/-- A due request is copied to the ledger, then removed from the inbox. -/
theorem triple_importManualQueue (hi : h .inbox = false) (now : Time) :
    Does h Same (importManualQueue now) (fun _ => Ready now) fun _ _ _ => True := by
  refine triple_locking hi (frame_same hr).stable (fun ht => by cases ht) ?_
  have hr : Function.update h .inbox true .rotation = true := by
    rw [update_of_ne (by decide)]
    exact hr
  have hi : Function.update h .inbox true .inbox = true := update_self ..
  generalize Function.update h .inbox true = h at hr hi
  refine triple_bind ((triple_readManualQueue (frame_same hr)).raising
    fun _ _ _ _ => trivial) fun x => ?_
  cases x with
  | none => exact triple_pure fun _ _ hp => ⟨hp.1, fun _ _ _ => hp.2⟩
  | some request =>
    dsimp only
    split
    · next hfuture =>
      refine Triple.knowing (triple_pure fun s d hp => ⟨hp.2.1, fun q hq htrigger => ?_⟩)
      -- the copy in the ledger is not due either
      obtain rfl := hp.1.one request q hp.2.2 hq
      cases ht : request.trigger_at with
      | none =>
        rw [ht] at hfuture
        cases hfuture
      | some t =>
        simp only [ht, any_some, all_some, decide_eq_true_eq] at hfuture htrigger
        exact absurd hfuture (not_lt.mpr htrigger)
    refine triple_get fun state => ?_
    split
    · exact triple_fail
    next hown =>
    have hown : state.queued_manual = none ∨ state.queued_manual = some request := by
      cases hq : state.queued_manual with
      | none => exact .inl rfl
      | some q =>
        rw [hq] at hown
        simp only [any_some, decide_eq_true_eq, not_not] at hown
        exact .inr (congrArg some hown)
    let Copied : Ledger → Disk → Prop := fun s d =>
      s.queued_manual = some request ∧ s.manual_pending = none ∧ (d.queued = none ∨ d.queued = some request) ∧
        s.pending = d.pending ∧ d.inbox = some request
    have hcopied : ∀ s, moves.Stable h (Copied s) := by
      intro s h' d d' ha hk hm hp
      obtain ⟨hl, -⟩ := Move.ledger_eq hm (apart_rotation hr ha)
      refine ⟨hp.1, hp.2.1, ?_, hp.2.2.2.1.trans (pending_congr hl).symm, stable_inbox hi _ h' d d' ha hk hm hp.2.2.2.2⟩
      rw [queued_congr hl]
      exact hp.2.2.1
    refine triple_bind (R := fun _ => Copied) (triple_modify fun s d _ hp => ?_) fun _ => ?_
    · obtain ⟨rfl, hsame, hinbox⟩ := hp
      exact ⟨rfl, hsame.manual, by rw [hsame.queued]; exact hown, hsame.pending.symm, hinbox⟩
    let Stored : Ledger → Disk → Prop := fun s d =>
      s.queued_manual = some request ∧ s.manual_pending = none ∧ d.ledger = some s ∧ d.inbox = some request
    have hstored : ∀ s, moves.Stable h (Stored s) := by
      intro s h' d d' ha hk hm hp
      obtain ⟨hl, -⟩ := Move.ledger_eq hm (apart_rotation hr ha)
      exact ⟨hp.1, hp.2.1, hl.trans hp.2.2.1, stable_inbox hi _ h' d d' ha hk hm hp.2.2.2⟩
    have hsave : Does h Copied saveState (fun _ => Stored) fun _ _ _ => True := by
      refine triple_get fun v => ?_
      refine triple_bind (R := fun x s d => x = .ok () → Stored s d) (triple_ask (fun s => ?_) ?_) fun x => ?_
      · intro h' d d' ha hk hm hp
        exact ⟨hp.1, hcopied s h' d d' ha hk hm hp.2⟩
      · rintro s d x d' - ⟨rfl, hq, hm, hold, hpending, hinbox⟩ ⟨hx, -⟩
        rcases hx with rfl | ⟨rfl, e, rfl⟩
        · exact ⟨.copy s request hr hi hinbox hq hm hold hpending, fun _ => ⟨hq, hm, rfl, hinbox⟩⟩
        · exact ⟨.stay, fun he => by cases he⟩
      · exact triple_ofExcept (fun u hu s d hp => hp hu) fun _ _ _ _ _ => trivial
    refine triple_bind hsave fun _ => ?_
    have hunlink : Does h Stored (unlinkManualQueue .imported) (fun _ => Ready now) fun _ _ _ => True := by
      refine triple_bind (R := fun x s d => x = .ok () → Ready now s d) (triple_ask hstored ?_) fun x => ?_
      · rintro s d x d' - ⟨hq, hm, hl, hinbox⟩ ⟨hx, -⟩
        have hqueued : d.queued = some request := by
          rw [Disk.queued, hl]
          exact hq
        rcases hx with rfl | ⟨rfl, e, rfl⟩
        · have hledger : (d.unlinked .imported).ledger = some s := hl
          refine ⟨.unlink request hr hi hinbox hqueued, fun _ => ⟨⟨?_, ?_, hm⟩, fun _ _ _ => rfl⟩⟩
          · rw [Disk.queued, hledger]
            rfl
          · rw [Disk.pending, hledger]
            rfl
        · exact ⟨.stay, fun he => by cases he⟩
      · exact triple_ofExcept (fun u hu s d hp => hp hu) fun _ _ _ _ _ => trivial
    exact triple_bind hunlink fun _ => triple_ret

/-! ## Selecting and dispatching -/

theorem triple_manualStage :
    Does h (Ready now) (manualStage m now) (fun stage s d => stage = .go none ∧ Ready now s d) fun _ => Fits := by
  refine triple_get fun v => ?_
  split
  · exact triple_pure fun s d hp => ⟨rfl, hp.2⟩
  · next hmanual =>
    rintro s d - ⟨rfl, hp⟩
    rw [hp.1.manual] at hmanual
    cases hmanual

/-- A queued request that takes the free slot. -/
theorem Same.taken (hs : Same s d) (hp : s.pending = none) {q : Request} (hq : s.queued_manual = some q)
    (hn : d.inbox = none) (hid : p.request_id = q.request_id) (h₁ : t.pending = some p)
    (h₂ : t.queued_manual = none) (h₃ : t.manual_pending = s.manual_pending) : Fits t d where
  kept id hi := by
    rcases hi with ⟨b, hb, rfl⟩ | ⟨b, hb, -⟩
    · rw [hs.queued, hq] at hb
      cases hb
      exact .inr (.inl ⟨p, h₁, hid⟩)
    · rw [hs.pending, hp] at hb
      cases hb
  queued b hb := by
    rw [h₂] at hb
    cases hb
  pending b hb := by
    rw [h₁] at hb
    cases hb
    exact .inr (.inl ⟨hn, q, hs.queued.trans hq, hid.symm⟩)
  manual := h₃.trans hs.manual

/-- An automatic request that takes the free slot. -/
theorem Fits.reserved (hs : Fits s d) (hp : s.pending = none) {seed corner : String} {slot : Nat}
    (hid : p.request_id = .named seed slot corner) (h₁ : t.pending = some p) (h₂ : t.queued_manual = s.queued_manual)
    (h₃ : t.manual_pending = s.manual_pending) : Fits t d where
  kept id hi := by
    rcases hs.kept id hi with ⟨q, hq, he⟩ | ⟨b, hb, -⟩ | hx
    · exact .inl ⟨q, h₂.trans hq, he⟩
    · rw [hp] at hb
      cases hb
    · exact .inr (.inr hx)
  queued q hq := hs.queued q (h₂.symm.trans hq)
  pending b hb := by
    rw [h₁] at hb
    cases hb
    exact .inr (.inr ⟨seed, slot, corner, hid⟩)
  manual := h₃.trans hs.manual

/-- The pending request in another phase. -/
theorem Fits.phased (hs : Fits s d) {p' : Pending} (hp : s.pending = some p) (hid : p'.request_id = p.request_id)
    (h₁ : t.pending = some p') (h₂ : t.queued_manual = s.queued_manual) (h₃ : t.manual_pending = s.manual_pending) :
    Fits t d where
  kept id hi := by
    rcases hs.kept id hi with ⟨q, hq, he⟩ | ⟨b, hb, he⟩ | hx
    · exact .inl ⟨q, h₂.trans hq, he⟩
    · rw [hp] at hb
      cases hb
      exact .inr (.inl ⟨p', h₁, hid.trans he⟩)
    · exact .inr (.inr hx)
  queued q hq := hs.queued q (h₂.symm.trans hq)
  pending b hb := by
    rw [h₁] at hb
    cases hb
    rcases hs.pending p hp with ⟨p₀, hp₀, he⟩ | ⟨hn, q, hq, he⟩ | ⟨seed, slot, corner, he⟩
    · exact .inl ⟨p₀, hp₀, he.trans hid.symm⟩
    · exact .inr (.inl ⟨hn, q, hq, he.trans hid.symm⟩)
    · exact .inr (.inr ⟨seed, slot, corner, hid.trans he⟩)
  manual := h₃.trans hs.manual

/-- The answer of a wait, or the request that holds the slot. -/
def Taken (c : Chosen (Option Pending)) (s : Ledger) (d : Disk) : Prop :=
  Fits s d ∧ ∀ x, c = .go x → s.pending = x

include hr

theorem triple_takeQueued :
    Does h (Ready now) (takeQueued m now manual_eligible) Taken fun _ => Fits := by
  refine triple_get fun state => ?_
  split
  · next queued hpending hqueued =>
    split
    · next hdue =>
      split
      · exact triple_throw fun _ _ hp => hp.2.fits
      split
      · refine triple_bind ((triple_wait hr _).pre fun _ _ hp => hp.2.fits) fun _ => ?_
        exact triple_pure fun _ _ hp => ⟨hp, fun _ he => by cases he⟩
      refine triple_bind (R := fun _ => Owns { queued with phase := .selected, manual := true })
        (triple_modify fun s d _ hp => ?_) fun _ => ?_
      · obtain ⟨rfl, hready⟩ := hp
        have hn := hready.2 queued (hready.1.queued.trans hqueued) hdue
        exact ⟨hready.1.taken hpending hqueued hn rfl rfl rfl rfl, rfl⟩
      · refine triple_bind ((triple_saveState hr (frame_owns hr _) (fun _ _ hp => hp.1)
          fun _ _ hp => ⟨hp.1.saved, hp.2⟩).raising fun _ _ _ hp => hp.1) fun _ => ?_
        refine triple_pure fun s d hp => ⟨hp.1.1, fun x he => ?_⟩
        cases he
        exact hp.1.2
    · refine triple_pure fun s d hp => ⟨hp.2.fits, fun x he => ?_⟩
      cases he
      rw [hp.1]
      exact hpending
  · next pending hne =>
    refine triple_pure fun s d hp => ⟨hp.2.fits, fun x he => ?_⟩
    cases he
    rw [hp.1]

theorem triple_waitForCandidates :
    Does h Fits (waitForCandidates m now eligible future) (fun _ => Fits) fun _ => Fits := by
  refine triple_bind (Quiet.get _ (frame_fits hr)) fun state => ?_
  refine triple_bind (R := fun _ => Fits) ?_ fun _ => ?_
  · split
    · exact triple_update (frame_fits hr) fun _ => ⟨rfl, rfl, rfl⟩
    · exact triple_ret
  · split
    · exact triple_wait hr _
    · exact triple_wait hr _

omit hr

/-- No request is pending in the ledger in memory. -/
def Free (s : Ledger) (d : Disk) : Prop := Fits s d ∧ s.pending = none

include hr in
theorem frame_free : Frame h Free where
  stable _ h' d d' ha hk hm hp := ⟨stable_fits hr h' d d' ha hk hm hp.1, hp.2⟩
  places _ _ _ h₁ h₂ h₃ hp := ⟨hp.1.places h₁ h₂ h₃, h₁.trans hp.2⟩

/-- The answer of a wait, or the request that was reserved. -/
def Reserved (c : Chosen Pending) (s : Ledger) (d : Disk) : Prop := Fits s d ∧ ∀ p, c = .go p → s.pending = some p

include hr in
theorem triple_reserve :
    Does h Free (reserve m now eligible future) Reserved fun _ => Fits := by
  have hfree : Frame h Free := frame_free hr
  have hdone : ∀ {w : Work Outcome}, Does h Fits w (fun _ => Fits) (fun _ => Fits) →
      Does h Free (do
        let outcome ← w
        Pure.pure (.done outcome)) Reserved fun _ => Fits := fun hw =>
    triple_bind (hw.pre fun _ _ hp => hp.1) fun _ => triple_pure fun _ _ hp => ⟨hp, fun _ he => by cases he⟩
  unfold reserve
  split
  · exact hdone (triple_wait hr _)
  refine triple_bind (R := fun _ => Free) ?_ fun _ => ?_
  · split
    · refine triple_update hfree fun s => ?_
      split <;> exact ⟨rfl, rfl, rfl⟩
    · exact triple_update hfree fun _ => ⟨rfl, rfl, rfl⟩
  refine triple_bind ((Quiet.get _ hfree).raising fun _ _ _ hp => hp.1)
    fun state => ?_
  split
  · exact hdone (triple_wait hr _)
  refine triple_bind (R := fun _ => Free) ?_ fun planned => ?_
  · split
    · exact triple_ret
    · exact (Quiet.ask Ask.announced (fun _ _ _ hx => hx) _ hfree).raising
        fun _ _ _ hp => hp.1
  split
  · exact hdone (triple_waitForCandidates hr now eligible future)
  · next chosen _ =>
    have hpending : ∀ p : Pending, p.request_id = .named state.seed state.slot chosen → Does h Free (do
        update fun s => { s with pending := some p, slot := s.slot + 1 }
        saveState
        Pure.pure (.go p)) Reserved fun _ => Fits := by
      intro p hid
      refine triple_bind (R := fun _ => Owns p)
        (triple_modify fun s d _ hp => ⟨hp.1.reserved hp.2 hid rfl rfl rfl, rfl⟩) fun _ => ?_
      refine triple_bind ((triple_saveState hr (frame_owns hr p) (fun _ _ hp => hp.1)
        fun _ _ hp => ⟨hp.1.saved, hp.2⟩).raising fun _ _ _ hp => hp.1) fun _ => ?_
      refine triple_pure fun s d hp => ⟨hp.1.1, fun p' he => ?_⟩
      cases he
      exact hp.1.2
    exact hpending _ rfl

theorem quiet_noteStart (p : Pending) (raws : List Observation) : Quiet h (noteStart p raws) := by
  refine .fold (fun _ raw => ?_) _ _
  split
  · exact .pure _
  · exact .bind (.ofExcept _) fun _ => .update fun _ => ⟨rfl, rfl, rfl⟩

include hr

/-- The executor is called with a request that is pending on disk. -/
theorem triple_execute (p : Pending) (corner : String) (request : Request)
    (hid : request.request_id = p.request_id) :
    Does h (fun s d => Owns p s d ∧ d.pending = some p) (execute corner request)
      (fun _ s d => Owns p s d ∧ Seen p.request_id d) fun _ => Fits := by
  have hstable : ∀ s, moves.Stable h fun d => Owns p s d ∧ d.pending = some p := by
    intro s h' d d' ha hk hm hp
    exact ⟨(frame_owns hr p).stable s h' d d' ha hk hm hp.1,
      (pending_congr (Move.ledger_eq hm (apart_rotation hr ha)).1).trans hp.2⟩
  refine triple_bind (R := fun _ s d => Owns p s d ∧ Seen p.request_id d) (triple_ask hstable ?_) fun x =>
    triple_ofExcept (fun _ _ _ _ hp => hp) fun _ _ _ _ hp => hp.1.1
  rintro s d x d' - ⟨howns, hpending⟩ ⟨⟨c, hc, rfl⟩, -⟩
  rw [hid] at hc ⊢
  refine ⟨.run p c hr hpending hc, ⟨⟨?_, howns.1.queued, howns.1.pending, howns.1.manual⟩, howns.2⟩,
    fun _ => mem_cons_self⟩
  intro id hi
  rcases howns.1.kept id hi with hq | hp | he
  · exact .inl hq
  · exact .inr (.inl hp)
  · exact .inr (.inr (mem_cons_of_mem _ he))

theorem triple_runSlot (p : Pending) (now : Time) :
    Does h (Owns p) (runSlot m p now) (fun _ => Fits) fun _ => Fits := by
  have hframe := frame_owns hr p
  have hseen : Frame h fun s d => Owns p s d ∧ Seen p.request_id d := hframe.and (stable_seen hr)
  have hquiet : ∀ {γ : Type} {w : Work γ}, Quiet h w → Does h (fun s d => Owns p s d ∧ Seen p.request_id d) w
      (fun _ s d => Owns p s d ∧ Seen p.request_id d) fun _ => Fits := fun hw =>
    (hw _ hseen).raising fun _ _ _ hp => hp.1.1
  refine triple_bind (triple_update hframe fun _ => ⟨rfl, rfl, rfl⟩) fun _ => ?_
  have hsave : Does h (Owns p) saveState (fun _ s d => Owns p s d ∧ d.pending = some p) fun _ => Fits :=
    (triple_saveState hr hframe (fun _ _ hp => hp.1) fun _ _ hp => ⟨hp.1.saved, hp.2⟩).post (fun _ s d hp => ⟨hp.1, by rw [Disk.pending, hp.2]; exact hp.1.2⟩) fun _ _ _ hp => hp.1
  refine triple_bind hsave fun _ => ?_
  refine triple_bind (triple_execute hr p p.corner p.toRequest rfl) fun status => ?_
  refine triple_bind (hquiet (quiet_observations p.corner)) fun raws => ?_
  refine triple_bind (hquiet (quiet_noteStart p raws)) fun _ => ?_
  split
  · refine triple_bind (hquiet quiet_clock) fun finished => ?_
    refine triple_bind (R := fun _ => Fits) (triple_modify fun s d _ hp => hp.1.1.drop hp.1.2 hp.2 rfl rfl rfl) fun _ => ?_
    exact triple_bind (triple_saveFits hr) fun _ => triple_ret
  split
  · refine triple_bind (R := fun _ => Fits) (triple_modify fun s d _ hp => ?_) fun _ => ?_
    · exact (frame_fits hr).places s _ d rfl rfl rfl hp.1.1
    exact triple_bind (triple_saveFits hr) fun _ => triple_ret
  refine triple_bind (hquiet (quiet_slotReusable m p.corner p.request_id)) fun reusable => ?_
  refine triple_bind (R := fun _ s d => Owns p s d ∧ Seen p.request_id d) ?_ fun leftover => ?_
  · split
    · exact hquiet (quiet_leftoverCornerGame m p.corner p.request_id)
    · exact triple_ret
  split
  · refine triple_bind ((triple_releaseFailedCorner hr p _ now false).raising
      fun _ _ _ hp => hp.1.1) fun _ => ?_
    exact triple_bind (triple_saveFits hr) fun _ => triple_ret
  · exact triple_throw fun _ _ hp => hp.1.1

theorem triple_dispatch (p : Pending) :
    Does h (Owns p) (dispatch m now eligible manual_eligible p) (fun _ => Fits) fun _ => Fits := by
  have hframe := frame_owns hr p
  have hquiet : ∀ {γ : Type} {w : Work γ}, Quiet h w → Does h (Owns p) w (fun _ => Owns p) fun _ => Fits := fun hw =>
    (hw _ hframe).raising fun _ _ _ hp => hp.1
  unfold dispatch
  split
  · exact triple_throw fun _ _ hp => hp.1
  refine triple_bind (hquiet (quiet_observations p.corner)) fun raws => ?_
  refine triple_ite (fun _ => (triple_wait hr _).pre fun _ _ hp => hp.1) fun _ => ?_
  refine triple_ite (fun _ => ?_) fun _ => triple_runSlot hr p now
  refine triple_bind (hquiet .get) fun state => ?_
  refine triple_ite (fun _ => (triple_wait hr _).pre fun _ _ hp => hp.1) fun _ => ?_
  refine triple_bind (R := fun _ => Owns { p with phase := .dispatched }) (triple_modify fun s d _ hp => ?_)
    fun _ => triple_runSlot hr _ now
  refine ⟨hp.1.phased hp.2 ?_ rfl rfl rfl, rfl⟩
  rfl

theorem triple_tickSelect :
    Does h (Ready now) (tickSelect m now future none) (fun _ => Fits) fun _ => Fits := by
  have hframe : Frame h (Ready now) := frame_ready hr now
  have hquiet : ∀ {γ : Type} {w : Work γ}, Quiet h w → Does h (Ready now) w (fun _ => Ready now) fun _ => Fits := fun hw =>
    (hw _ hframe).raising fun _ _ _ hp => hp.fits
  refine triple_bind (hquiet (quiet_observe m now)) fun found => ?_
  refine triple_bind (hquiet (quiet_eligible m found.unretired false)) fun selectable => ?_
  refine triple_bind (hquiet (quiet_eligible m found.unretired true)) fun manual_eligible => ?_
  refine triple_bind (triple_update hframe fun _ => ⟨rfl, rfl, rfl⟩) fun _ => ?_
  split
  · exact (triple_wait hr _).pre fun _ _ hp => hp.fits
  refine triple_bind (triple_takeQueued hr now manual_eligible) fun chosen => ?_
  cases chosen with
  | done outcome => exact triple_pure fun _ _ hp => hp.1
  | go pending =>
    cases pending with
    | some p => exact (triple_dispatch hr now selectable manual_eligible p).pre fun _ _ hp => ⟨hp.1, hp.2 _ rfl⟩
    | none =>
      refine triple_bind ((triple_reserve hr now selectable future).pre fun _ _ hp => ⟨hp.1, hp.2 _ rfl⟩) fun chosen => ?_
      cases chosen with
      | done outcome => exact triple_pure fun _ _ hp => hp.1
      | go p => exact (triple_dispatch hr now selectable manual_eligible p).pre fun _ _ hp => ⟨hp.1, hp.2 _ rfl⟩

/-! ## Tick -/

theorem triple_tickTry :
    Does h (Ready now) (tickTry m now future) (fun _ => Fits) fun _ => Fits := by
  have hstage : Does h (Ready now)
      (Work.handle (manualStage m now) fun exc => do
        let outcome ← tickFailed m now exc
        Pure.pure (.done outcome))
      (fun stage s d => (stage = .go none ∧ Ready now s d) ∨ (∃ outcome, stage = .done outcome) ∧ Fits s d) fun _ => Fits := by
    refine triple_handle ((triple_manualStage now).post (fun _ _ _ hp => .inl hp) fun _ _ _ hp => hp)
      fun exc => ?_
    exact triple_bind (triple_tickFailed hr now exc) fun outcome => triple_pure fun _ _ hp => .inr ⟨⟨outcome, rfl⟩, hp⟩
  refine triple_bind hstage fun stage => ?_
  cases stage with
  | done outcome =>
    refine triple_pure fun s d hp => ?_
    rcases hp with ⟨he, -⟩ | ⟨-, hs⟩
    · cases he
    · exact hs
  | settled manual at_ =>
    intro s d hk hp
    rcases hp with ⟨he, -⟩ | ⟨⟨_, he⟩, -⟩
    · cases he
    · cases he
  | go manual =>
    have hstart : ∀ s d, ((Stage.go manual = .go none ∧ Ready now s d) ∨
        (∃ outcome, Stage.go manual = .done outcome) ∧ Fits s d) → manual = none ∧ Ready now s d := by
      rintro s d (⟨he, hs⟩ | ⟨⟨_, he⟩, -⟩)
      · cases he
        exact ⟨rfl, hs⟩
      · cases he
    refine Triple.pre (triple_fact fun hm => ?_) hstart
    subst hm
    exact triple_handle (triple_tickSelect hr now future) fun exc => triple_tickFailed hr now exc

omit hr

theorem quiet_heartbeatProvesParkedSlot : Quiet h (heartbeatProvesParkedSlot now) := by
  refine .bind .get fun state => ?_
  split
  · refine .bind (.ask _ fun _ _ _ hx => hx) fun x => ?_
    split <;> exact .pure _
  · exact .pure _

/-- Work that ends in a frame may raise anything at the top. -/
theorem Quiet.top (hw : Quiet h w) (hP : Frame h P) : Does h P w (fun _ => P) fun _ _ _ => True :=
  (hw P hP).raising fun _ _ _ _ => trivial

theorem triple_top {R : α → Ledger → Disk → Prop}
    (hw : Does h P w R X) : Does h P w R fun _ _ _ => True :=
  hw.raising fun _ _ _ _ => trivial

include hr in
theorem triple_tickOpen (hi : h .inbox = false) (now : Time) :
    Does h Same (tickOpen m now) (fun _ => Fits) fun _ _ _ => True := by
  have hframe : Frame h (Ready now) := frame_ready hr now
  refine triple_bind (triple_importManualQueue hr hi now) fun future => ?_
  refine triple_bind (Quiet.get.top hframe) fun state => ?_
  refine triple_ite (fun _ => triple_top ((triple_wait hr _).pre fun _ _ hp => Ready.fits hp)) fun _ => ?_
  refine triple_bind (R := fun _ => Ready now) ?_ fun parked => ?_
  · exact triple_ite (fun _ => (quiet_heartbeatProvesParkedSlot now).top hframe) fun _ => triple_ret
  refine triple_bind (triple_update hframe fun _ => ⟨rfl, rfl, rfl⟩) fun _ => ?_
  refine triple_bind (Quiet.get.top hframe) fun state => ?_
  exact triple_ite (fun _ => triple_top ((triple_wait hr _).pre fun _ _ hp => Ready.fits hp)) fun _ =>
    triple_top (triple_tickTry hr now future)

/-! ## Loading -/

/-- A fresh ledger has no request. -/
theorem triple_freshLedger (hP : Frame h P) (now : Time) :
    Does h P (freshLedger m now)
      (fun v s d => P s d ∧ v.pending = none ∧ v.queued_manual = none ∧ v.manual_pending = none) fun _ => P := by
  refine triple_bind ((Quiet.fold (fun _ _ => Quiet.bind (quiet_observations _) fun _ => Quiet.pure _) _ _) P hP)
    fun named => triple_ite (fun _ => triple_throw fun _ _ hp => hp) fun _ => ?_
  refine triple_bind (Quiet.ask Ask.token (fun _ _ _ hx => hx) P hP) fun _ => ?_
  refine triple_bind (Quiet.bind (Quiet.ask Ask.legacy_corners fun _ _ _ hx => hx) Quiet.ofExcept P hP) fun _ => ?_
  refine triple_bind (Quiet.bind (Quiet.ask Ask.legacy fun _ _ _ hx => hx) Quiet.ofExcept P hP) fun _ => ?_
  exact triple_pure fun _ _ hp => ⟨hp, rfl, rfl, rfl⟩

/-- The ledger that `load` returns is the one in memory; it was read when `Q` held of it, or is fresh. -/
theorem triple_load {Q : Option Ledger → Disk → Prop} (hQ : ∀ x, moves.Stable h (Q x))
    (hread : ∀ d, Consistent d → Q d.ledger d) (now : Time) :
    Does h (fun _ _ => True) (load m now)
      (fun v s d => s = v ∧ (Q (some v) d ∨
        Q none d ∧ v.pending = none ∧ v.queued_manual = none ∧ v.manual_pending = none)) fun _ _ _ => True := by
  have hledger : Does h (fun _ _ => True) readLedger (fun x _ d => Q x d) fun _ _ _ => True := by
    refine triple_bind (R := fun x _ d => ∀ v, x = .ok v → Q v d) (triple_ask (fun _ _ _ _ _ _ _ _ => trivial) ?_) fun x =>
      triple_ofExcept (fun v hv _ _ hp => hp v hv) fun _ _ _ _ _ => trivial
    rintro s d x d' hk - ⟨⟨rfl, hx⟩, -⟩
    refine ⟨.stay, fun v hv => ?_⟩
    rcases hx with ⟨e, rfl⟩ | rfl
    · cases hv
    · cases hv
      exact hread _ hk
  refine triple_bind hledger fun x => ?_
  cases x with
  | none =>
    have hframe : Frame h fun _ d => Q none d := ⟨fun _ => hQ none, fun _ _ _ _ _ _ hp => hp⟩
    refine triple_bind (triple_top (triple_freshLedger hframe now)) fun v => ?_
    refine triple_bind (R := fun _ s d => s = v ∧ Q none d ∧ v.pending = none ∧ v.queued_manual = none ∧
      v.manual_pending = none) (triple_modify fun _ _ _ hp => ⟨rfl, hp⟩) fun _ => ?_
    exact triple_pure fun _ _ hp => ⟨hp.1, .inr hp.2⟩
  | some v =>
    refine triple_bind (R := fun _ _ d => Q (some v) d)
      (triple_ofExcept (fun _ _ _ _ hp => hp) fun _ _ _ _ _ => trivial) fun _ => ?_
    refine triple_bind (R := fun _ s d => s = v ∧ Q (some v) d) (triple_modify fun _ _ _ hp => ⟨rfl, hp⟩) fun _ => ?_
    exact triple_pure fun _ _ hp => ⟨hp.1, .inl hp.2⟩

include hr

theorem triple_loadSame :
    Does h (fun _ _ => True) (load m now) (fun v s d => s = v ∧ Same s d) fun _ _ _ => True := by
  have hload := triple_load (h := h) (m := m)
    (Q := fun x d => d.ledger = x ∧ ∀ v, x = some v → v.manual_pending = none)
    (fun x => stable_of_ledger hr fun _ _ hl _ hp => ⟨hl.trans hp.1, hp.2⟩) (fun d hk => ⟨rfl, hk.manual⟩) now
  refine hload.post (fun v s d hp => ?_) fun _ _ _ hp => hp
  obtain ⟨rfl, ⟨hl, hm⟩ | ⟨⟨hl, -⟩, hp, hq, hm⟩⟩ := hp
  · refine ⟨rfl, ?_, ?_, hm s rfl⟩
    · rw [Disk.queued, hl]
      rfl
    · rw [Disk.pending, hl]
      rfl
  · refine ⟨rfl, ?_, ?_, hm⟩
    · rw [Disk.queued, hl, hq]
      rfl
    · rw [Disk.pending, hl, hp]
      rfl

/-! ## Whole calls -/

theorem triple_saveSame : Does h Fits saveState (fun _ => Same) fun _ _ _ => True := by
  refine triple_top ((triple_saveState hr (frame_fits hr) (fun _ _ hs => hs) fun _ _ hs => hs.saved).post (fun _ s d hp => ?_) fun _ _ _ hp => hp)
  have hd : d = { d with ledger := some s } := by rw [← hp.2]
  rw [hd]
  exact same_saved hp.1.manual

theorem triple_tickLocked (hi : h .inbox = false) :
    Does h (fun _ _ => True) (tickLocked m) (fun _ _ _ => True) fun _ _ _ => True := by
  have hsame : Frame h Same := frame_same hr
  have hopen : ∀ now, Does h Same (tickOpen m now) (fun _ _ _ => True) fun _ _ _ => True := fun now =>
    (triple_tickOpen hr hi now).post (fun _ _ _ _ => trivial) fun _ _ _ _ => trivial
  refine triple_bind (quiet_clock.top frame_any) fun now => ?_
  refine triple_bind ((triple_loadSame hr now).post (fun _ _ _ hp => hp.2) fun _ _ _ hp => hp)
    fun state => ?_
  refine triple_bind ((quiet_rememberCatalog m).top hsame) fun _ => ?_
  refine triple_ite (fun _ => ?_) fun _ => hopen now
  refine triple_bind (triple_top ((triple_autoReleaseLatch hr now).pre fun _ _ hp => hp.fits)) fun outcome => ?_
  refine triple_bind (triple_saveSame hr) fun _ => ?_
  cases outcome with
  | some _ => exact hopen now
  | none => exact triple_bind (Quiet.get.top hsame) fun _ => triple_pure fun _ _ _ => trivial

/-- The reservation of the loaded ledger is committed, or the ledger is saved as it was loaded. -/
theorem triple_recoverReservation (snapshot : Ledger) (p : Pending) (now : Time) :
    Does h (fun s d => Owns p s d ∧ Same snapshot d) (recoverReservation m snapshot p.reservation now) (fun _ _ _ => True)
      fun _ _ _ => True := by
  have hkept : moves.Stable h (Same snapshot) := (frame_same hr).stable snapshot
  have hframe : Frame h fun s d => Owns p s d ∧ Same snapshot d := (frame_owns hr p).and hkept
  refine triple_guard fun _ => ?_
  refine triple_bind (R := fun _ s d => Owns p s d ∧ Same snapshot d) ?_ fun guard => ?_
  · refine triple_ite (fun _ => triple_ret) fun _ => ?_
    exact (Quiet.ask (Ask.recovery_guard p.corner p.request_id) fun _ _ _ hx => hx).top hframe
  have hrefuse : ∀ exc, Does h (fun _ d => Same snapshot d) (refuse snapshot exc) (fun _ => Fits) fun _ _ _ => True := by
    intro exc
    refine triple_bind (R := fun _ _ _ => True) (triple_bind (R := fun _ _ _ => True) (triple_ask (fun _ => hkept) ?_)
      fun x => triple_ofExcept (fun _ _ _ _ _ => trivial) fun _ _ _ _ _ => trivial) fun _ => triple_fail
    rintro s d x d' - hs ⟨rfl | ⟨rfl, -⟩, -⟩
    · exact ⟨.save _ hr ⟨hs.fits.kept, hs.fits.queued, hs.fits.pending, hs.manual⟩, trivial⟩
    · exact ⟨.stay, trivial⟩
  split
  · exact triple_fail
  refine triple_bind (R := fun _ s d => Fits s d)
    (triple_handle (?_ : Does h _ _ _ fun _ s d => Owns p s d ∧ Same snapshot d) fun exc => ?_) fun outcome => ?_
  · refine triple_bind (R := Decided fun s d => Owns p s d ∧ Same snapshot d) ?_ fun committed => ?_
    · refine triple_ite (fun _ => triple_pure fun _ _ hp => .none hp.1.1 hp) fun _ => ?_
      exact triple_commitVerifiedFailedStart hr hframe (fun _ _ hp => hp.1) now
    · cases committed with
      | some outcome => exact triple_pure fun _ _ hp => hp.1
      | none => exact (triple_resolveReservation hr hframe (fun _ _ hp => hp.1) now).pre fun _ _ hp => hp.2 rfl
  · refine triple_guard fun _ => ?_
    exact (hrefuse exc).pre fun _ _ hp => hp.2
  · exact triple_bind (triple_top (triple_saveFits hr)) fun _ => triple_pure fun _ _ _ => trivial

theorem triple_recoverLocked :
    Does h (fun _ _ => True) (recoverLocked m) (fun _ _ _ => True) fun _ _ _ => True := by
  refine triple_bind (quiet_clock.top frame_any) fun now => ?_
  refine triple_bind (triple_loadSame hr now) fun snapshot => ?_
  -- the requests in memory stay those of the ledger that was loaded
  let Loaded : Ledger → Disk → Prop := fun s d =>
    (s.pending = snapshot.pending ∧ s.manual_pending = snapshot.manual_pending) ∧ Same s d ∧ Same snapshot d
  have hframe : Frame h Loaded :=
    { stable := fun s h' d d' ha hk hm hp => ⟨hp.1, (frame_same hr).stable s h' d d' ha hk hm hp.2.1,
        (frame_same hr).stable snapshot h' d d' ha hk hm hp.2.2⟩
      places := fun s t d h₁ h₂ h₃ hp => ⟨⟨h₁.trans hp.1.1, h₃.trans hp.1.2⟩,
        (frame_same hr).places s t d h₁ h₂ h₃ hp.2.1, hp.2.2⟩ }
  refine Triple.pre (P := Loaded) ?_ fun s d hp => ⟨⟨by rw [hp.1], by rw [hp.1]⟩, hp.2, hp.1 ▸ hp.2⟩
  refine triple_bind ((quiet_rememberCatalog m).top hframe) fun _ => ?_
  refine triple_guard fun _ => ?_
  refine triple_guard fun _ => ?_
  split
  · exact triple_fail
  · refine triple_bind (triple_update hframe fun _ => ⟨rfl, rfl, rfl⟩) fun _ => ?_
    exact triple_bind (triple_top ((triple_saveFits hr).pre fun _ _ hp => hp.2.1.fits)) fun _ =>
      triple_pure fun _ _ _ => trivial
  · next p hpending _ =>
    exact (triple_recoverReservation hr snapshot p now).pre fun s d hp => ⟨⟨hp.2.1.fits, hp.1.1.trans hpending⟩, hp.2.2⟩
  · next manual _ hmanual =>
    intro s d hk hp
    have := hp.2.2.manual
    rw [hmanual] at this
    cases this

omit hr

theorem triple_tick (m : Manager) :
    Does (fun _ => false) (fun _ _ => True) (tick m) (fun _ _ _ => True) fun _ _ _ => True := by
  refine triple_bind (quiet_rotationEnabled.top frame_any) fun _ => triple_ite (fun _ => triple_pure fun _ _ _ => trivial) fun _ => ?_
  refine triple_locking rfl frame_any.stable (fun _ => triple_pure fun _ _ _ => trivial) ?_
  exact triple_tickLocked (update_self ..) (update_of_ne (by decide) ..)

theorem triple_recover (m : Manager) :
    Does (fun _ => false) (fun _ _ => True) (recover m) (fun _ _ _ => True) fun _ _ _ => True := by
  refine triple_bind (quiet_rotationEnabled.top frame_any) fun _ => triple_ite (fun _ => triple_pure fun _ _ _ => trivial) fun _ => ?_
  refine triple_locking rfl frame_any.stable (fun _ => triple_pure fun _ _ _ => trivial) ?_
  exact triple_recoverLocked (update_self ..)

end Docich.Rotation
