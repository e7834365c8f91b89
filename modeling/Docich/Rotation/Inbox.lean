import Docich.Rotation.Keeps

/-!
# What the inbox does to a request

The work under the inbox lock: an identifier that `queue_manual` returns is safe (`triple_queueLocked`), and a request
is cancelled only where the inbox holds it (`triple_cancelLocked`).
-/

namespace Docich.Rotation

open Durable.Locks
open Durable.Locks.Work (throw get modify ofExcept handle fold locking)

variable {h : Held Lock} {P : Ledger → Disk → Prop} {id : RequestId} {d d' : Disk} {m : Manager}

/-! ## What stays under the inbox lock -/

theorem stable_safe (h : Held Lock) (id : RequestId) : moves.Stable h (Safe id) := fun _ _ _ _ _ hm hs => Move.safe hm hs

def Empty (d : Disk) : Prop := d.inbox = none ∧ d.queued = none

variable (hi : h .inbox = true)

include hi in
theorem stable_empty : moves.Stable h Empty := by
  intro h' d d' ha _ hm hd
  obtain ⟨hinbox, hqueued⟩ := Move.inbox_kept hm (ha _ hi)
  exact ⟨hinbox.trans hd.1, hqueued hd.2⟩

theorem Move.drawn_subset (hm : Move h d d') {n : Nat} (hn : n ∈ d.drawn) : n ∈ d'.drawn := by
  cases hm with
  | draw k _ => exact List.mem_cons_of_mem _ hn
  | stay | save | copy | unlink | put | run | stamp => exact hn
  | cancel q _ hi =>
    simp only [Disk.unlinked, hi]
    exact hn

/-- Without the inbox lock, no random identifier comes into use. -/
theorem Move.used (hm : Move h d d') (hh : h .inbox = false) {n : Nat} (hu : Used (.random n) d') : Used (.random n) d := by
  cases hm with
  | stay | draw => exact hu
  | save s _ hs =>
    rcases hu with (hw | he) | hk
    · rcases hw with hi | hl
      · exact .inl (.inl (.inl hi))
      · rcases hs.inLedger hl with hl | ⟨_, _, _, hn⟩
        · exact .inl (.inl (.inr hl))
        · cases hn
    · exact .inl (.inr he)
    · exact .inr hk
  | run p c _ hp ht =>
    have hw : Waiting p.request_id d := .inr (.inr ⟨p, hp, rfl⟩)
    rcases hu with (hw' | he | hc) | ⟨k, hk, hid⟩
    · exact .inl (.inl hw')
    · rcases List.mem_cons.mp he with he | he
      · exact .inl (.inl (he ▸ hw))
      · exact .inl (.inr (.inl he))
    · exact .inl (.inr (.inr hc))
    · rcases ht k hk with h' | ⟨k₀, hk₀, h'⟩
      · exact .inl (.inl (hid ▸ h' ▸ hw))
      · exact .inr ⟨k₀, hk₀, h' ▸ hid⟩
  | copy _ _ _ hi | unlink _ _ hi | cancel _ hi | put _ hi | stamp _ hi =>
    rw [hh] at hi
    cases hi

theorem Move.cancelled_eq (hm : Move h d d') (hh : h .inbox = false) : d'.cancelled = d.cancelled := by
  cases hm with
  | stay | draw | save | run => rfl
  | copy _ _ _ hi | unlink _ _ hi | cancel _ hi | put _ hi | stamp _ hi => exact nomatch hh.symm.trans hi

include hi in
theorem stable_clean (id : RequestId) : moves.Stable h (Clean id) := by
  intro h' d d' ha _ hm hc
  have hf := ha _ hi
  refine ⟨?_, ?_, fun n hn => Move.drawn_subset hm (hc.drawn n hn)⟩
  · rw [Move.cancelled_eq hm hf]
    exact hc.kept
  · rw [(Move.inbox_kept hm hf).1]
    exact hc.timed

/-- An identifier that was drawn and is not in use. -/
def Unused (id : RequestId) (d : Disk) : Prop := (∃ n, id = .random n ∧ n ∈ d.drawn) ∧ ¬ Used id d

include hi in
theorem stable_unused (id : RequestId) : moves.Stable h (Unused id) := by
  rintro h' d d' ha - hm ⟨⟨n, rfl, hn⟩, hu⟩
  exact ⟨⟨n, rfl, Move.drawn_subset hm hn⟩, fun h => hu (Move.used hm (ha _ hi) h)⟩

theorem Unused.clean (hu : Unused id d) : Clean id d := by
  obtain ⟨⟨n, rfl, hn⟩, hu⟩ := hu
  exact clean_of_unused hn hu

/-- An assertion about the disk alone. -/
theorem frame_of {Q : Disk → Prop} (hQ : moves.Stable h Q) : Frame h fun _ d => Q d :=
  ⟨fun _ => hQ, fun _ _ _ _ _ _ hp => hp⟩

theorem stable_and {Q Q' : Disk → Prop} (hQ : moves.Stable h Q) (hQ' : moves.Stable h Q') :
    moves.Stable h fun d => Q d ∧ Q' d :=
  fun h' d d' ha hk hm hp => ⟨hQ h' d d' ha hk hm hp.1, hQ' h' d d' ha hk hm hp.2⟩

/-! ## A new request -/

include hi

theorem triple_uuid4 :
    Does h (fun _ d => Empty d) uuid4 (fun id _ d => Empty d ∧ Unused id d) fun _ _ _ => True := by
  refine triple_ask (fun _ => stable_empty hi) ?_
  rintro s d x d' hk he ⟨⟨n, hn, rfl, rfl⟩, -⟩
  exact ⟨.draw n hn, he, ⟨n, rfl, List.mem_cons_self⟩, fun hu => hn (hk.drawn n hu)⟩

variable (state : Ledger) (game : String) (q : Request) (now : Time)

theorem triple_writeManualQueue :
    Does h (fun _ d => Empty d ∧ (Unused q.request_id d ∨ q.trigger_at = none ∧ Clean q.request_id d))
      (writeManualQueue q) (fun _ _ d => Safe q.request_id d) fun _ _ _ => True := by
  refine triple_bind (R := fun x _ d => x = .ok () → Safe q.request_id d) (triple_ask (fun _ => ?_) ?_) fun x =>
    triple_ofExcept (fun u hu s d hp => hp hu) fun _ _ _ _ _ => trivial
  · refine stable_and (stable_empty hi) fun h' d d' ha hk hm hp => ?_
    rcases hp with hp | hp
    · exact .inl (stable_unused hi _ h' d d' ha hk hm hp)
    · exact .inr ⟨hp.1, stable_clean hi _ h' d d' ha hk hm hp.2⟩
  · rintro s d x d' - ⟨he, hq⟩ ⟨rfl | ⟨rfl, e, rfl⟩, -⟩
    · exact ⟨.put q hi he.1 he.2 hq, fun _ => .inl (.inl ⟨q, rfl, rfl⟩)⟩
    · exact ⟨.stay, fun h => nomatch h⟩

theorem triple_prepare :
    Does h (fun _ d => Empty d ∧ Clean q.request_id d) (prepare q) (fun _ _ d => Empty d ∧ Clean q.request_id d)
      fun _ _ _ => True := by
  refine triple_bind (R := fun _ _ d => Empty d ∧ Clean q.request_id d)
    (triple_ask (fun _ => stable_and (stable_empty hi) (stable_clean hi _)) ?_) fun x =>
    triple_ofExcept (fun _ _ _ _ hp => hp) fun _ _ _ _ _ => trivial
  rintro s d x d' - ⟨he, hq⟩ ⟨hx, -⟩
  have hd : d' = d ∨ d' = { d with checkpoint := some (sealed q) } := by
    cases x with
    | ok _ => exact hx.imp_left And.left
    | error _ => exact hx
  rcases hd with rfl | rfl
  · exact ⟨.stay, he, hq⟩
  · exact ⟨.stamp (sealed q) hi hq, he, hq.kept, hq.timed, hq.drawn⟩

omit hi

theorem triple_recoverPrepared (corner : String) {Q : Disk → Prop} (hQ : moves.Stable h Q) :
    Does h (fun _ d => Q d) (recoverPrepared corner)
      (fun x _ d => Q d ∧ ∀ r, x = some r → r.trigger_at = none ∧ Clean r.request_id d) fun _ _ _ => True := by
  refine triple_bind (R := fun x _ d => Q d ∧ ∀ y, x = .ok y → ∀ r, y = some r → r.trigger_at = none ∧ Clean r.request_id d)
    (triple_ask (fun _ => hQ) ?_) fun x =>
    triple_ofExcept (fun y hy s d hp => ⟨hp.1, hp.2 y hy⟩) fun _ _ _ _ _ => trivial
  rintro s d x d' hk hp ⟨⟨rfl, hx⟩, -⟩
  refine ⟨.stay, hp, ?_⟩
  rintro y rfl r rfl
  obtain ⟨k, hcheck, -, -, -, rfl⟩ := hx
  exact ⟨rfl, hk.clean hcheck⟩

include hi in
theorem triple_newRequest (chosen : String) (requested : Option Time)
    (resume_latest new_game : Bool) (hresume : resume_latest = true → requested = none) :
    Does h (fun _ d => Empty d) (newRequest now chosen requested resume_latest new_game)
      (fun r _ d => Safe r.request_id d) fun _ _ _ => True := by
  refine triple_bind (triple_uuid4 hi) fun id => ?_
  refine triple_ite (fun hlatest => ?_) fun _ => ?_
  · refine triple_bind (triple_recoverPrepared chosen (stable_and (stable_empty hi) (stable_unused hi id))) fun x => ?_
    have hrest : ∀ r : Request, r.trigger_at = none → Does h (fun _ d => Empty d ∧ Clean r.request_id d) (do
        prepare r
        writeManualQueue r
        Pure.pure r) (fun r _ d => Safe r.request_id d) fun _ _ _ => True := by
      intro r hr
      refine triple_bind (triple_prepare hi r) fun _ => ?_
      refine triple_bind ((triple_writeManualQueue hi r).pre fun _ _ hp => ⟨hp.1, .inr ⟨hr, hp.2⟩⟩) fun _ => ?_
      exact triple_pure fun _ _ hp => hp
    cases x with
    | none => exact (hrest _ (hresume hlatest)).pre fun _ _ hp => ⟨hp.1.1, hp.1.2.clean⟩
    | some r =>
      intro s d hk hp
      obtain ⟨hr, hclean⟩ := hp.2 r rfl
      exact hrest r hr s d hk ⟨hp.1.1, hclean⟩
  · refine triple_bind ((triple_writeManualQueue hi _).pre fun _ _ hp => ⟨hp.1, .inl hp.2⟩) fun _ => ?_
    exact triple_pure fun _ _ hp => hp

/-! ## Queueing -/

/-- What is known of a ledger that was read under the inbox lock. -/
structure Loaded (state : Ledger) (d : Disk) : Prop where
  empty : state.queued_manual = none → d.queued = none
  manual : state.manual_pending = none
  queued : ∀ q, state.queued_manual = some q → Safe q.request_id d
  pending : ∀ p, state.pending = some p → Safe p.request_id d

include hi

theorem stable_loaded : moves.Stable h (Loaded state) := by
  intro h' d d' ha _ hm hk
  exact ⟨fun hn => (Move.inbox_kept hm (ha _ hi)).2 (hk.empty hn), hk.manual, fun q hq => Move.safe hm (hk.queued q hq),
    fun p hp => Move.safe hm (hk.pending p hp)⟩

theorem triple_loadUnlocked :
    Does h (fun _ _ => True) (load m now) (fun state _ d => Loaded state d) fun _ _ _ => True := by
  have hload := triple_load (h := h) (m := m)
    (Q := fun x d => (∀ state, x = some state → Loaded state d) ∧ (x = none → d.queued = none)) (fun x => ?_) (fun d hk => ?_) now
  · refine hload.post (fun state s d hp => ?_) fun _ _ _ hp => hp
    rcases hp.2 with hs | ⟨hn, hpending, hqueued, hmanual⟩
    · exact hs.1 state rfl
    · refine ⟨fun _ => hn.2 rfl, hmanual, fun q hq => ?_, fun p hp => ?_⟩
      · rw [hqueued] at hq
        cases hq
      · rw [hpending] at hp
        cases hp
  · intro h' d d' ha hk hm hp
    exact ⟨fun state hs => stable_loaded hi state h' d d' ha hk hm (hp.1 state hs),
      fun hn => (Move.inbox_kept hm (ha _ hi)).2 (hp.2 hn)⟩
  · refine ⟨fun state hs => ⟨fun hn => ?_, hk.manual state hs, fun q hq => ?_, fun p hp => ?_⟩, fun hn => ?_⟩
    · rw [Disk.queued, hs]
      exact hn
    · refine .inl (.inr (.inl ⟨q, ?_, rfl⟩))
      rw [Disk.queued, hs]
      exact hq
    · refine .inl (.inr (.inr ⟨p, ?_, rfl⟩))
      rw [Disk.pending, hs]
      exact hp
    · rw [Disk.queued, hn]
      rfl

theorem triple_readQueued :
    Does h (fun _ d => Loaded state d) (readQueued state)
      (fun x _ d => Loaded state d ∧ (∀ q, x = some q → Safe q.request_id d) ∧ (x = none → Empty d)) fun _ _ _ => True := by
  refine triple_bind (triple_top (triple_readManualQueue (frame_of (stable_loaded hi state)))) fun inbox => ?_
  refine triple_pure fun s d hp => ⟨hp.1, fun q hq => ?_, fun hn => ?_⟩
  · cases inbox with
    | some a =>
      cases hq
      exact .inl (.inl ⟨q, hp.2, rfl⟩)
    | none => exact hp.1.queued q hq
  · cases inbox with
    | some a => cases hn
    | none => exact ⟨hp.2, hp.1.empty hn⟩

theorem triple_alreadyScheduled (requested : Option Time) :
    Does h (fun _ d => Loaded state d) (alreadyScheduled m state game requested)
      (fun x _ d => Loaded state d ∧ ∀ q, x = some q → Safe q.request_id d) fun _ _ _ => True := by
  have hnone : ∀ (s : Ledger) (d : Disk), Loaded state d →
      Loaded state d ∧ ∀ q, (none : Option Queued) = some q → Safe q.request_id d := fun _ _ hl => ⟨hl, fun _ he => nomatch he⟩
  unfold alreadyScheduled
  split
  · next trigger chosen _ =>
    refine triple_bind (triple_readQueued hi state) fun queued => ?_
    dsimp only
    split
    · next request hrequest =>
      refine triple_ite (fun _ => triple_pure fun s d hp => ⟨hp.1, fun q hq => ?_⟩) fun _ =>
        triple_pure fun s d hp => hnone s d hp.1
      cases hq
      show Safe request.request_id d
      cases queued with
      | some a =>
        cases hrequest
        exact hp.2.1 request rfl
      | none =>
        obtain ⟨p, hpending, rfl⟩ := Option.map_eq_some_iff.mp hrequest
        exact hp.1.pending p (Option.filter_eq_some_iff.mp hpending).1
    · exact triple_pure fun s d hp => hnone s d hp.1
  · exact triple_pure hnone

omit hi

theorem joinable_safe {state : Ledger} {chosen : String} {requested : Option Time} (hl : Loaded state d) {r : Request}
    (hr : joinable state chosen requested = some r) : Safe r.request_id d := by
  unfold joinable at hr
  rw [hl.manual] at hr
  split at hr
  · next hm =>
    cases hm
  · next p _ hp =>
    split at hr
    · cases hr
      exact hl.pending p hp
    · cases hr
  · cases hr

include hi

theorem triple_requestFor (chosen : String) (requested : Option Time)
    (resume_latest new_game : Bool) (hresume : resume_latest = true → requested = none) :
    Does h (fun _ d => Loaded state d) (requestFor state now chosen requested resume_latest new_game)
      (fun r _ d => Safe r.request_id d) fun _ _ _ => True := by
  refine triple_bind (triple_readQueued hi state) fun queued => ?_
  split
  · next request hrequest =>
    refine triple_guard fun _ => triple_pure fun s d hp => ?_
    cases queued with
    | some a =>
      cases hrequest
      exact hp.2.1 request rfl
    | none => exact joinable_safe hp.1 hrequest
  · next hnone =>
    refine (triple_newRequest hi now chosen requested resume_latest new_game hresume).pre fun s d hp => ?_
    cases queued with
    | some a => cases hnone
    | none => exact hp.2.2 rfl

theorem triple_publish (id : RequestId) :
    Does h (fun _ d => Safe id d) (publish q) (fun _ _ d => Safe id d) fun _ _ _ => True := by
  refine triple_bind (R := fun _ _ d => Safe id d) (triple_ask (fun _ => stable_safe h id) ?_) fun x =>
    triple_ofExcept (fun _ _ _ _ hp => hp) fun _ _ _ _ _ => trivial
  rintro s d x d' hk hs ⟨rfl | ⟨k, hcheck, -, rfl⟩, -⟩
  · exact ⟨.stay, hs⟩
  · have hclean := hk.clean hcheck
    have hm : Move h d { d with checkpoint := some { k with status := .queued } } := .stamp _ hi hclean
    exact ⟨hm, hm.safe hs⟩

/-- **An identifier that is returned is safe.** -/
theorem triple_queueLocked (trigger_at : Option Time) (resume_latest new_game : Bool)
    (hresume : resume_latest = true → trigger_at = none) :
    Does h (fun _ _ => True) (queueLocked m game trigger_at resume_latest new_game) (fun q _ d => Safe q.request_id d)
      fun _ _ _ => True := by
  refine triple_bind (quiet_clock.top frame_any) fun now => ?_
  refine triple_guard fun _ => ?_
  refine triple_bind (triple_loadUnlocked hi now) fun state => ?_
  refine triple_bind (triple_alreadyScheduled hi state game trigger_at) fun found => ?_
  cases found with
  | some queued => exact triple_pure fun _ _ hp => hp.2 queued rfl
  | none =>
    refine Triple.pre (P := fun _ d => Loaded state d) ?_ fun _ _ hp => hp.1
    refine triple_guard fun _ => ?_
    refine triple_guard fun _ => ?_
    refine triple_guard fun _ => ?_
    refine triple_bind ((quiet_eligible m [] true).top (frame_of (stable_loaded hi state))) fun selectable => ?_
    split
    · next chosen _ =>
      refine triple_bind (triple_requestFor hi state now chosen trigger_at resume_latest new_game hresume) fun request => ?_
      refine triple_bind (R := fun _ _ d => Safe request.request_id d) ?_ fun _ => triple_pure fun _ _ hp => hp
      exact triple_ite (fun _ => triple_publish hi request _) fun _ => triple_ret
    · exact triple_fail

omit hi

theorem triple_queueManual (m : Manager) (game : String) (trigger_at : Option Time) (resume_latest new_game : Bool) :
    Does (fun _ => false) (fun _ _ => True) (queueManual m game trigger_at resume_latest new_game)
      (fun q _ d => Safe q.request_id d) fun _ _ _ => True := by
  refine triple_guard fun hresume => ?_
  refine triple_guard fun _ => ?_
  refine triple_bind (quiet_rotationEnabled.top frame_any) fun _ => triple_guard
    fun _ => ?_
  refine triple_locking rfl frame_any.stable (fun ht => nomatch ht) ?_
  refine triple_queueLocked (Function.update_self ..) game trigger_at resume_latest new_game fun hlatest => ?_
  by_contra hne
  exact hresume ⟨hlatest, .inr hne⟩

/-! ## Cancelling -/

include hi in
theorem triple_cancelLocked :
    Does h (fun _ _ => True) (cancelLocked m game) (fun _ _ _ => True) fun _ _ _ => True := by
  refine triple_bind (quiet_clock.top frame_any) fun now => ?_
  refine triple_bind ((triple_loadUnlocked hi now).post (fun _ _ _ _ => trivial) fun _ _ _ hp => hp)
    fun state => ?_
  split
  · refine triple_bind (triple_top (triple_readManualQueue frame_any)) fun inbox => ?_
    cases inbox with
    | none => exact triple_guard fun _ => triple_fail
    | some request =>
      dsimp only
      split
      · next trigger htrigger =>
        refine triple_guard fun _ => ?_
        refine triple_bind (R := fun _ _ _ => True) (triple_bind (R := fun _ _ _ => True) (triple_ask
          (fun _ => stable_and (fun _ _ _ _ _ _ hp => hp) (stable_inbox hi (some request))) ?_) fun x =>
          triple_ofExcept (fun _ _ _ _ _ => trivial) fun _ _ _ _ _ => trivial) fun _ => triple_pure fun _ _ _ => trivial
        rintro s d x d' - ⟨-, hinbox⟩ ⟨rfl | ⟨rfl, -⟩, hcareful⟩
        · refine ⟨.cancel request hi hinbox ?_ (hcareful request hinbox), trivial⟩
          rw [htrigger]
          rfl
        · exact ⟨.stay, trivial⟩
      · exact triple_fail
  · exact triple_fail

theorem triple_cancelScheduledManual (m : Manager) (game : String) :
    Does (fun _ => false) (fun _ _ => True) (cancelScheduledManual m game) (fun _ _ _ => True) fun _ _ _ => True := by
  refine triple_bind (quiet_rotationEnabled.top frame_any) fun _ => triple_guard
    fun _ => ?_
  refine triple_locking rfl frame_any.stable (fun ht => nomatch ht) ?_
  exact triple_cancelLocked (Function.update_self ..) game

end Docich.Rotation
