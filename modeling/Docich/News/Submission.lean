import Docich.News.Moves
import Docich.News.Worker

/-!
# What a submission does to the orders

The orders before it stay as they are, and a new one has the candidate's expiry (`Opens`): an acceptance opens the
order of a receipt that is new, and what follows in the call changes the order of that receipt only (`Own`).
-/

namespace Docich.News

open Durable

variable {l l' m t : Ledger} {o : PendingOrder} {mgr : Manager} {at' : Instant}

/-! ## The order of a receipt -/

/-- Only orders of the receipt change, and they keep their expiry. -/
structure Own (receiptId : String) (l l' : Ledger) : Prop where
  booked : Booked l'
  others : ∀ x : PendingOrder, x.receiptId ≠ receiptId → (x ∈ l'.orders ↔ x ∈ l.orders)
  same : ∀ x ∈ l'.orders, x.receiptId = receiptId → ∃ y ∈ l.orders, y.receiptId = receiptId ∧ x.expiresAt = y.expiresAt

theorem Own.refl (receiptId : String) (hb : Booked l) : Own receiptId l l :=
  ⟨hb, fun _ _ => Iff.rfl, fun x hx hid => ⟨x, hx, hid, rfl⟩⟩

variable {receiptId : String} {cfg : WorkerConfig} {c : Cycle}

theorem Own.trans (h : Own receiptId l m) (h' : Own receiptId m t) : Own receiptId l t where
  booked := h'.booked
  others := fun x hx => (h'.others x hx).trans (h.others x hx)
  same := by
    intro x hx hid
    obtain ⟨y, hy, hyid, hxy⟩ := h'.same x hx hid
    obtain ⟨z, hz, hzid, hyz⟩ := h.same y hy hyid
    exact ⟨z, hz, hzid, hxy.trans hyz⟩

theorem Own.of_orders (hb : Booked l') (h : l'.orders = l.orders) : Own receiptId l l' :=
  ⟨hb, fun _ _ => by rw [h], fun x hx hid => ⟨x, h ▸ hx, hid, rfl⟩⟩

theorem Own.committed {t2 notBefore : Instant} (hb : Booked l)
    (h : Committed receiptId t2 notBefore o l l') : Own receiptId l l' where
  booked := h.booked hb
  others := by
    intro x hne
    rw [h.becomes]
    constructor
    · rintro (⟨hx, -⟩ | rfl)
      · exact hx
      · exact absurd h.order_receipt hne
    · intro hx
      refine .inl ⟨hx, fun hid => hne ?_⟩
      rw [Table.eq_of_key_eq hx h.order_mem hid]
      exact h.order_receipt
  same := by
    intro x hx hid
    rcases h.becomes.mp hx with ⟨hx, -⟩ | rfl
    · exact ⟨x, hx, hid, rfl⟩
    · exact ⟨o, h.order_mem, h.order_receipt, rfl⟩

theorem Own.canceled {code : String} (hb : Booked l) (h : Canceled o code at' l l') : Own o.receiptId l l' where
  booked := h.booked hb
  others := by
    intro x hne
    have hid : ∀ y ∈ l.orders, y.receiptId ≠ o.receiptId → y.orderId ≠ o.orderId := by
      intro y hy hyr hyo
      exact hyr (congrArg PendingOrder.receiptId (Table.eq_of_key_eq hy h.order_mem hyo))
    constructor
    · intro hx
      rcases h.becomes hx with ⟨hx, -⟩ | rfl
      · exact hx
      · exact absurd rfl hne
    · intro hx
      rw [h.orders]
      exact mem_setCanceled.mpr ⟨x, hx, by rw [if_neg (hid x hx hne)]⟩
  same := by
    intro x hx hid
    rcases h.becomes hx with ⟨hx, -⟩ | rfl
    · exact ⟨x, hx, hid, rfl⟩
    · exact ⟨o, h.order_mem, rfl, rfl⟩

theorem ends_commitAfterT1 {clock : Nat → Instant} (hb : Booked l) :
    Job.Ends l (commitAfterT1 mgr clock receiptId) (fun _ t => Own receiptId l t) fun _ t => Own receiptId l t := by
  apply Job.ends_bind (Q := fun _ t => Own receiptId l t)
  · apply Job.ends_txn
    · intro t result ht
      rcases commitReceipt_ok ht with rfl | ⟨order, notBefore, hc⟩
      · exact Own.refl _ hb
      · exact Own.committed hb hc
    · exact fun _ _ => Own.refl _ hb
  intro result t ht
  split
  · apply Job.ends_bind (Q := fun _ u => Own receiptId l u)
    · apply Job.ends_txn
      · intro u done hu
        rcases abandonReceipt_ok hu with rfl | ⟨n, hn, rfl⟩
        · exact ht
        · rcases hn with rfl | ⟨order, rfl, hc⟩
          · exact ht.trans (Own.of_orders (ht.booked.congr rfl rfl rfl rfl) rfl)
          · have hown := Own.canceled ht.booked hc
            exact (ht.trans hown).trans (Own.of_orders (hown.booked.congr rfl rfl rfl rfl) rfl)
      · exact fun _ _ => ht
    · intro _ u hu
      exact Job.ends_read hu
  · exact Job.ends_read ht

/-- The orders that were there stay; a new one has the expiry `expiresAt`. -/
structure Opens (expiresAt : Instant) (l l' : Ledger) : Prop where
  booked : Booked l'
  keeps : ∀ x ∈ l.orders, x ∈ l'.orders
  opened : ∀ x ∈ l'.orders, x ∈ l.orders ∨ x.expiresAt = expiresAt

theorem Opens.refl (hb : Booked l) (expiresAt : Instant) : Opens expiresAt l l :=
  ⟨hb, fun _ hx => hx, fun _ hx => .inl hx⟩

/-- An acceptance opens the order of a new receipt; what follows changes that order only. -/
theorem Begun.opens {r : ReceiptDraft} {d : OrderDraft} {reservation : ReservationDraft} {use : EventUseDraft}
    (h : Begun r d reservation use l m) (hown : Own r.receiptId m t) : Opens d.expiresAt l t where
  booked := hown.booked
  keeps := by
    intro x hx
    refine (hown.others x (h.order_new x hx).1).mpr ?_
    exact h.mem_orders.mpr (.inl hx)
  opened := by
    intro x hx
    by_cases hid : x.receiptId = r.receiptId
    · obtain ⟨y, hy, hyid, hxy⟩ := hown.same x hx hid
      rcases h.mem_orders.mp hy with hy | rfl
      · exact absurd hyid (h.order_new y hy).1
      · exact .inr hxy
    · have hx' := (hown.others x hid).mp hx
      rcases h.mem_orders.mp hx' with hx' | rfl
      · exact .inl hx'
      · exact .inr rfl

section Submit

variable {q : DecisionRequest} {clock : Nat → Instant} (hb : Booked l)
include hb

theorem ends_recordDecision (status : ReceiptStatus) (codes : List String) (expiresAt : Instant) :
    Job.Ends l (recordDecision mgr q status codes) (fun _ t => Opens expiresAt l t) fun _ t => Opens expiresAt l t := by
  have hl := Opens.refl hb expiresAt
  apply Job.ends_bind (Q := fun _ t => l = t) (Job.ends_ofExcept (fun _ _ => rfl) fun _ _ => hl)
  rintro draft _ rfl
  apply Job.ends_bind (Q := fun _ t => Opens expiresAt l t)
  · apply Job.ends_txn
    · intro t u ht
      rw [(recordDecisionOnly_ok ht).frame]
      exact ⟨hb.congr rfl rfl rfl rfl, hl.keeps, hl.opened⟩
    · exact fun _ _ => hl
  · exact fun _ t ht => Job.ends_read ht

theorem ends_acceptDecided (quantity : ℚ) (reservation : ReservationDraft) :
    Job.Ends l (acceptDecided mgr clock q quantity reservation) (fun _ t => Opens q.expiresAt l t)
      fun _ t => Opens q.expiresAt l t := by
  have hl := Opens.refl hb q.expiresAt
  apply Job.ends_bind
  · apply Job.ends_attempt (Q := fun _ t => ∃ r, r.receiptId = q.receiptId ∧
      Begun r (orderDraftOf q quantity) (reservationDraftOf q reservation) (eventUseDraftOf q) l t)
      (F := fun _ t => l = t)
    apply Job.ends_txn
    · intro t u ht
      obtain ⟨r, hr, hbegun⟩ := beginAccepted_ok ht
      refine ⟨r, ?_, hbegun⟩
      obtain ⟨-, hr⟩ := require_bind_ok hr
      cases hr
      rfl
    · exact fun _ _ => rfl
  rintro result t ⟨hok, herr⟩
  cases result with
  | ok u =>
    obtain ⟨r, hr, hbegun⟩ := hok u rfl
    refine (ends_commitAfterT1 (hbegun.booked hb)).mono (fun _ _ hown => ?_) fun _ _ hown => ?_
    · exact hbegun.opens (hr ▸ hown)
    · exact hbegun.opens (hr ▸ hown)
  | error e =>
    obtain rfl := herr e rfl
    dsimp only
    split
    · apply Job.ends_bind (Q := fun _ t => l = t) (Job.ends_read rfl)
      rintro row _ rfl
      split
      · exact Job.ends_pure hl
      · exact Job.ends_throw hl
    · split
      · exact ends_recordDecision hb _ _ _
      · exact Job.ends_throw hl

theorem ends_accept : Job.Ends l (accept mgr clock q) (fun _ t => Opens q.expiresAt l t)
    fun _ t => Opens q.expiresAt l t := by
  have hl := Opens.refl hb q.expiresAt
  apply Job.ends_bind (Q := fun _ t => l = t) (Job.ends_look (fun _ _ => rfl) fun _ _ => hl)
  rintro account _ rfl
  apply Job.ends_bind (Q := fun _ t => l = t) (Job.ends_look (fun _ _ => rfl) fun _ _ => hl)
  rintro used _ rfl
  apply Job.ends_bind (Q := fun _ t => l = t) (Job.ends_read rfl)
  rintro losses _ rfl
  apply Job.ends_bind (Q := fun _ t => l = t) (Job.ends_ofExcept (fun _ _ => rfl) fun _ _ => hl)
  rintro decision _ rfl
  cases decision with
  | held codes => exact ends_recordDecision hb _ _ _
  | accepted quantity reservation notional => exact ends_acceptDecided hb quantity reservation

theorem ends_submitCandidate (intent : Intent) (codes : List String) :
    Job.Ends l (submitCandidate mgr clock q intent codes) (fun _ t => Opens q.expiresAt l t)
      fun _ t => Opens q.expiresAt l t := by
  have hl := Opens.refl hb q.expiresAt
  apply Job.ends_bind (Q := fun _ t => l = t) (Job.ends_ofExcept (fun _ _ => rfl) fun _ _ => hl)
  rintro _ _ rfl
  apply Job.ends_bind (Q := fun _ t => l = t) (Job.ends_read rfl)
  rintro existing _ rfl
  split
  · exact Job.ends_pure hl
  · split
    · exact ends_accept hb
    · apply Job.ends_bind (Q := fun _ t => l = t) (Job.ends_ofExcept (fun _ _ => rfl) fun _ _ => hl)
      rintro _ _ rfl
      exact ends_recordDecision hb _ _ _

end Submit

/-- The orders before the submissions stay, and a new one has the expiry of a candidate. -/
structure OpensAny (requests : List DecisionRequest) (l l' : Ledger) : Prop where
  booked : Booked l'
  keeps : ∀ x ∈ l.orders, x ∈ l'.orders
  opened : ∀ x ∈ l'.orders, x ∈ l.orders ∨ ∃ q ∈ requests, x.expiresAt = q.expiresAt

theorem ends_submitOne {k : Nat} {q : DecisionRequest} {tally : Tally}
    (hb : Booked l) :
    Job.Ends l (submitOne cfg c k q tally) (fun _ t => Opens q.expiresAt l t) fun _ _ => True := by
  apply Job.ends_bind (Job.ends_attempt (ends_submitCandidate hb .accept []))
  rintro result t ⟨hok, herr⟩
  cases result with
  | ok view =>
    cases view with
    | some row => exact Job.ends_pure (hok _ rfl)
    | none => exact Job.ends_throw trivial
  | error e =>
    cases e with
    | ledger code =>
      dsimp only
      split
      · exact Job.ends_throw trivial
      · exact Job.ends_pure (herr _ rfl)
    | execution code => exact Job.ends_throw trivial
    | integrity => exact Job.ends_throw trivial

theorem ends_submitEach {requests : List DecisionRequest} (hb : Booked l) (k : Nat)
    (tally : Tally) :
    Job.Ends l (submitEach cfg c k requests tally) (fun _ t => OpensAny requests l t) fun _ _ => True := by
  induction requests generalizing l k tally with
  | nil => exact Job.ends_pure ⟨hb, fun _ hx => hx, fun _ hx => .inl hx⟩
  | cons q requests ih =>
    apply Job.ends_bind (ends_submitOne hb)
    intro tally' m hm
    refine (ih hm.booked (k + 1) tally').mono (fun _ t ht => ?_) fun _ _ _ => trivial
    refine ⟨ht.booked, fun x hx => ht.keeps x (hm.keeps x hx), fun x hx => ?_⟩
    rcases ht.opened x hx with hx | ⟨q', hq', hx⟩
    · rcases hm.opened x hx with hx | hx
      · exact .inl hx
      · exact .inr ⟨q, List.mem_cons_self, hx⟩
    · exact .inr ⟨q', List.mem_cons_of_mem _ hq', hx⟩

/-- The candidates that a cycle submits. -/
def submitted (cfg : WorkerConfig) (c : Cycle) : List DecisionRequest :=
  if cfg.entriesDisabled then [] else c.candidates.toOption.getD []

theorem ends_submitCandidates {code : Option String} (hb : Booked l) :
    Job.Ends l (submitCandidates cfg c code) (fun _ t => OpensAny (submitted cfg c) l t) fun _ _ => True := by
  have hl : OpensAny (submitted cfg c) l l := ⟨hb, fun _ hx => hx, fun _ hx => .inl hx⟩
  unfold submitCandidates
  split
  · exact Job.ends_pure hl
  next henabled =>
    cases hc : c.candidates with
    | error e => exact Job.ends_pure hl
    | ok requests =>
      have hsub : submitted cfg c = requests := by simp [submitted, henabled, hc, Except.toOption]
      rw [hsub]
      exact ends_submitEach hb 0 _

theorem ends_valuate {w : Worker} (hb : Booked l) :
    Job.Ends l (valuate cfg c w) (fun _ t => Booked t ∧ t.orders = l.orders) fun _ _ => True := by
  apply Job.ends_bind (Q := fun _ t => l = t) (Job.ends_look (fun _ _ => rfl) fun _ _ => trivial)
  rintro account _ rfl
  apply Job.ends_txn
  · intro t u ht
    obtain ⟨valuations, rfl⟩ := recordValuation_ok ht
    exact ⟨hb.congr rfl rfl rfl rfl, rfl⟩
  · exact fun _ _ => trivial

end Docich.News
