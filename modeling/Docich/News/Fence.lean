import Docich.News.Depth

/-!
# The fill fence

A ledger that attempts leave behind, wherever the process died, has every fill behind its fence (`BehindFence`): the
receipt is marked and fenced, and the observation the fill was made from is another one than the decision's quote, and
later than the fence and the order's earliest instant by more than the clocks can be wrong.

What the fence stands on stays once it is stored (`Stays`); a receipt has one fence, and an event is used by one
receipt (`Single`).
-/

namespace Docich.News

open Durable Table

variable {sumText : List ℚ → ℚ} {l l' : Ledger}

/-! ## What stays -/

/-- Rows of the later ledger keep what a fill was checked against. -/
structure Stays (l l' : Ledger) : Prop where
  orders : ∀ o ∈ l.orders, ∃ o' ∈ l'.orders, o'.orderId = o.orderId ∧ o'.receiptId = o.receiptId ∧ o'.asset = o.asset ∧
    ∀ t, o.notBeforeAt = some t → o'.notBeforeAt = some t
  receipts : ∀ r ∈ l.receipts, ∃ r' ∈ l'.receipts, r'.toReceiptDraft = r.toReceiptDraft
  markers : ∀ m ∈ l.markers, m ∈ l'.markers
  fences : ∀ f ∈ l.fences, f ∈ l'.fences
  eventUses : ∀ u ∈ l.eventUses, u ∈ l'.eventUses

theorem Stays.refl (l : Ledger) : Stays l l where
  orders := fun o ho => ⟨o, ho, rfl, rfl, rfl, fun _ h => h⟩
  receipts := fun r hr => ⟨r, hr, rfl⟩
  markers := fun _ h => h
  fences := fun _ h => h
  eventUses := fun _ h => h

theorem Stays.trans {m : Ledger} (h : Stays l m) (h' : Stays m l') : Stays l l' where
  orders := by
    intro o ho
    obtain ⟨x, hx, e1, e2, e3, e4⟩ := h.orders o ho
    obtain ⟨y, hy, f1, f2, f3, f4⟩ := h'.orders x hx
    exact ⟨y, hy, f1.trans e1, f2.trans e2, f3.trans e3, fun t ht => f4 t (e4 t ht)⟩
  receipts := by
    intro r hr
    obtain ⟨x, hx, e⟩ := h.receipts r hr
    obtain ⟨y, hy, f⟩ := h'.receipts x hx
    exact ⟨y, hy, f.trans e⟩
  markers := fun m hm => h'.markers m (h.markers m hm)
  fences := fun f hf => h'.fences f (h.fences f hf)
  eventUses := fun u hu => h'.eventUses u (h.eventUses u hu)

/-- Tables that are not written stay. -/
theorem Stays.of_eq (ho : l'.orders = l.orders) (hr : l'.receipts = l.receipts) (hm : l'.markers = l.markers)
    (hf : l'.fences = l.fences) (hu : l'.eventUses = l.eventUses) : Stays l l' where
  orders := by rw [ho]; exact (Stays.refl l).orders
  receipts := by rw [hr]; exact (Stays.refl l).receipts
  markers := by rw [hm]; exact fun _ h => h
  fences := by rw [hf]; exact fun _ h => h
  eventUses := by rw [hu]; exact fun _ h => h

variable {receiptId : String} {order : PendingOrder}
variable {now t2 notBefore : Instant} {x : ReceiptRow} {r : ReceiptDraft} {o : OrderDraft}
    {reservation : ReservationDraft} {use : EventUseDraft} {fence : Fence} {b : Books} {added : ℚ}
    {fill : Fill}

/-- A receipt that is given up keeps its draft. -/
theorem mem_setAbandoned : x ∈ setAbandoned receiptId now l ↔
    ∃ r ∈ l.receipts, x = if r.receiptId = receiptId && r.abandonedAt.isNone then { r with abandonedAt := some now }
      else r := mem_update

theorem mem_setCommitted : x ∈ setCommitted receiptId t2 l ↔
    ∃ r ∈ l.receipts, x = if r.receiptId = receiptId && r.receiptCommittedAt.isNone
      then { r with receiptCommittedAt := some t2 } else r := mem_update

theorem stays_setAbandoned (receiptId : String) (now : Instant) :
    Stays l { l with receipts := setAbandoned receiptId now l } where
  orders := (Stays.refl l).orders
  receipts := by
    intro r hr
    refine ⟨_, mem_setAbandoned.mpr ⟨r, hr, rfl⟩, ?_⟩
    split <;> rfl
  markers := fun _ h => h
  fences := fun _ h => h
  eventUses := fun _ h => h

/-- Orders without an acceptance have no earliest instant; a receipt has one marker, a marker one fence; an accepted
receipt used its event, and no other receipt did. -/
structure Single (l : Ledger) : Prop where
  timed : ∀ o ∈ l.orders, o.acceptedAt = none → o.notBeforeAt = none
  marker_once : ∀ m ∈ l.markers, ∀ n ∈ l.markers, m.receiptId = n.receiptId → m = n
  fence_marker : ∀ f ∈ l.fences, ∃ m ∈ l.markers, m.markerId = f.markerId ∧ m.receiptId = f.receiptId
  fence_once : ∀ f ∈ l.fences, ∀ g ∈ l.fences, f.markerId = g.markerId → f = g
  use_once : ∀ u ∈ l.eventUses, ∀ v ∈ l.eventUses, u.runId = v.runId → u.scenarioId = v.scenarioId →
    u.eventGroupId = v.eventGroupId → u.asset = v.asset → u = v
  used : ∀ r ∈ l.receipts, r.status = .accepted → ∃ u ∈ l.eventUses, u.receiptId = r.receiptId ∧ u.runId = r.runId ∧
    u.scenarioId = r.scenarioId

theorem single_empty : Single .empty where
  timed := fun _ h => absurd h not_mem_empty
  marker_once := fun _ h => absurd h not_mem_empty
  fence_marker := fun _ h => absurd h not_mem_empty
  fence_once := fun _ h => absurd h not_mem_empty
  use_once := fun _ h => absurd h not_mem_empty
  used := fun _ h => absurd h not_mem_empty

theorem Single.fence_receipt (h : Single l) : ∀ f ∈ l.fences, ∀ g ∈ l.fences, f.receiptId = g.receiptId → f = g := by
  intro f hf g hg hfg
  obtain ⟨m, hm, hmf, hmr⟩ := h.fence_marker f hf
  obtain ⟨n, hn, hng, hnr⟩ := h.fence_marker g hg
  have hmn : m = n := h.marker_once m hm n hn (by rw [hmr, hnr, hfg])
  exact h.fence_once f hf g hg (by rw [← hmf, ← hng, hmn])

/-! ## Changes -/

theorem Begun.stays (h : Begun r o reservation use l l') : Stays l l' where
  orders := fun x hx => ⟨x, h.mem_orders.mpr (.inl hx), rfl, rfl, rfl, fun _ ht => ht⟩
  receipts := fun x hx => ⟨x, (mem_insert? h.receipts).mpr (.inl hx), rfl⟩
  markers := by rw [h.frame]; exact fun _ hm => hm
  fences := by rw [h.frame]; exact fun _ hf => hf
  eventUses := fun u hu => (mem_insert? h.eventUses).mpr (.inl hu)

theorem Begun.single (h : Begun r o reservation use l l') (hl : Single l) : Single l' where
  timed := by
    intro x hx hnone
    rcases h.mem_orders.mp hx with hx | rfl
    · exact hl.timed x hx hnone
    · rfl
  marker_once := by rw [h.frame]; exact hl.marker_once
  fence_marker := by rw [h.frame]; exact hl.fence_marker
  fence_once := by rw [h.frame]; exact hl.fence_once
  use_once := by
    intro u hu v hv h1 h2 h3 h4
    rcases (mem_insert? h.eventUses).mp hu with hu | rfl
    · rcases (mem_insert? h.eventUses).mp hv with hv | rfl
      · exact hl.use_once u hu v hv h1 h2 h3 h4
      · exact absurd ⟨h1, h2, h3, h4⟩ (h.use_new u hu)
    · rcases (mem_insert? h.eventUses).mp hv with hv | rfl
      · exact absurd ⟨h1.symm, h2.symm, h3.symm, h4.symm⟩ (h.use_new v hv)
      · rfl
  used := by
    intro x hx hacc
    rcases (mem_insert? h.receipts).mp hx with hx | rfl
    · obtain ⟨u, hu, hrest⟩ := hl.used x hx hacc
      exact ⟨u, (mem_insert? h.eventUses).mpr (.inl hu), hrest⟩
    · exact ⟨_, (mem_insert? h.eventUses).mpr (.inr rfl), rfl, rfl, rfl⟩

theorem Committed.stays (h : Committed receiptId t2 notBefore order l l') (hl : Single l) : Stays l l' where
  orders := by
    intro o ho
    by_cases hid : o.orderId = order.orderId
    · have heq : o = order := eq_of_key_eq ho h.order_mem hid
      have hnone : o.notBeforeAt = none := hl.timed o ho (by rw [heq]; exact h.not_accepted)
      refine ⟨_, h.becomes.mpr (.inr rfl), by rw [heq], by rw [heq], by rw [heq], ?_⟩
      intro t ht
      rw [hnone] at ht
      cases ht
    · exact ⟨o, h.becomes.mpr (.inl ⟨ho, hid⟩), rfl, rfl, rfl, fun _ ht => ht⟩
  receipts := by
    intro r hr
    have hreceipts : l'.receipts = setCommitted receiptId t2 l := by rw [h.frame]
    rw [hreceipts]
    refine ⟨_, mem_setCommitted.mpr ⟨r, hr, rfl⟩, ?_⟩
    split <;> rfl
  markers := fun m hm => (mem_insert? h.markers).mpr (.inl hm)
  fences := by rw [h.frame]; exact fun _ hf => hf
  eventUses := by rw [h.frame]; exact fun _ hu => hu

theorem Committed.single (h : Committed receiptId t2 notBefore order l l') (hl : Single l) : Single l' where
  timed := by
    intro x hx hnone
    rcases h.becomes.mp hx with ⟨hx, -⟩ | rfl
    · exact hl.timed x hx hnone
    · cases hnone
  marker_once := by
    intro m hm n hn hmn
    rcases (mem_insert? h.markers).mp hm with hm | rfl
    · rcases (mem_insert? h.markers).mp hn with hn | rfl
      · exact hl.marker_once m hm n hn hmn
      · exact absurd hmn (h.marker_new m hm)
    · rcases (mem_insert? h.markers).mp hn with hn | rfl
      · exact absurd hmn.symm (h.marker_new n hn)
      · rfl
  fence_marker := by
    intro f hf
    rw [h.frame] at hf
    obtain ⟨m, hm, hrest⟩ := hl.fence_marker f hf
    exact ⟨m, (mem_insert? h.markers).mpr (.inl hm), hrest⟩
  fence_once := by rw [h.frame]; exact hl.fence_once
  use_once := by rw [h.frame]; exact hl.use_once
  used := by
    intro x hx hacc
    have hreceipts : l'.receipts = setCommitted receiptId t2 l := by rw [h.frame]
    have huses : l'.eventUses = l.eventUses := by rw [h.frame]
    rw [hreceipts] at hx
    obtain ⟨r, hr, rfl⟩ := mem_setCommitted.mp hx
    rw [huses]
    split at hacc
    · next hsel =>
      rw [if_pos hsel]
      exact hl.used r hr hacc
    · next hsel =>
      rw [if_neg hsel]
      exact hl.used r hr hacc

theorem Fenced.stays (h : Fenced receiptId fence l l') : Stays l l' where
  orders := by rw [h.frame]; exact (Stays.refl l).orders
  receipts := by rw [h.frame]; exact (Stays.refl l).receipts
  markers := by rw [h.frame]; exact fun _ hm => hm
  fences := fun f hf => (mem_insert? h.fences).mpr (.inl hf)
  eventUses := by rw [h.frame]; exact fun _ hu => hu

theorem Fenced.single (h : Fenced receiptId fence l l') (hl : Single l) : Single l' where
  timed := by rw [h.frame]; exact hl.timed
  marker_once := by rw [h.frame]; exact hl.marker_once
  fence_marker := by
    intro f hf
    have hmarkers : l'.markers = l.markers := by rw [h.frame]
    rw [hmarkers]
    rcases (mem_insert? h.fences).mp hf with hf | rfl
    · exact hl.fence_marker f hf
    · obtain ⟨m, hm, hmr, hmf⟩ := h.marker
      exact ⟨m, hm, hmf, by rw [hmr, h.receipt]⟩
  fence_once := by
    intro f hf g hg hfg
    rcases (mem_insert? h.fences).mp hf with hf | rfl
    · rcases (mem_insert? h.fences).mp hg with hg | rfl
      · exact hl.fence_once f hf g hg hfg
      · exact absurd hfg (h.fence_new f hf)
    · rcases (mem_insert? h.fences).mp hg with hg | rfl
      · exact absurd hfg.symm (h.fence_new g hg)
      · rfl
  use_once := by rw [h.frame]; exact hl.use_once
  used := by rw [h.frame]; exact hl.used

/-- Orders that are written, other tables as they were. -/
theorem Stays.of_orders (ho : ∀ o ∈ l.orders, ∃ o' ∈ l'.orders, o'.orderId = o.orderId ∧ o'.receiptId = o.receiptId ∧
    o'.asset = o.asset ∧ ∀ t, o.notBeforeAt = some t → o'.notBeforeAt = some t) (hr : l'.receipts = l.receipts)
    (hm : l'.markers = l.markers) (hf : l'.fences = l.fences) (hu : l'.eventUses = l.eventUses) : Stays l l' where
  orders := ho
  receipts := by rw [hr]; exact (Stays.refl l).receipts
  markers := by rw [hm]; exact fun _ h => h
  fences := by rw [hf]; exact fun _ h => h
  eventUses := by rw [hu]; exact fun _ h => h

theorem Canceled.stays {code : String} (h : Canceled order code now l l') : Stays l l' := by
  apply Stays.of_orders ?_ (by rw [h.frame]) (by rw [h.frame]) (by rw [h.frame]) (by rw [h.frame])
  intro o ho
  rw [h.orders]
  refine ⟨_, mem_setCanceled.mpr ⟨o, ho, rfl⟩, ?_⟩
  split <;> exact ⟨rfl, rfl, rfl, fun _ ht => ht⟩

theorem Applied.stays {o : ExecutionOutcome} {account : AccountRow}
    (h : Applied sumText o now order account b added l l') : Stays l l' := by
  apply Stays.of_orders ?_ (by rw [h.frame]) (by rw [h.frame]) (by rw [h.frame]) (by rw [h.frame])
  intro x hx
  by_cases hid : x.orderId = order.orderId
  · have heq : x = order := eq_of_key_eq hx h.order_mem hid
    exact ⟨_, h.becomes.mpr (.inr rfl), by rw [heq], by rw [heq], by rw [heq], fun t ht => by rw [← heq]; exact ht⟩
  · exact ⟨x, h.becomes.mpr (.inl ⟨hx, hid⟩), rfl, rfl, rfl, fun _ ht => ht⟩

/-- Orders that keep their instants, and receipts that keep their drafts. -/
theorem Single.of_stays (hl : Single l) (ho : ∀ x ∈ l'.orders, ∃ o ∈ l.orders, x.acceptedAt = o.acceptedAt ∧
    x.notBeforeAt = o.notBeforeAt) (hr : ∀ x ∈ l'.receipts, x.status = .accepted → ∃ r ∈ l.receipts,
    r.toReceiptDraft = x.toReceiptDraft) (hm : l'.markers = l.markers) (hf : l'.fences = l.fences)
    (hu : l'.eventUses = l.eventUses) : Single l' where
  timed := by
    intro x hx hnone
    obtain ⟨o, hom, ha, hn⟩ := ho x hx
    rw [hn]
    exact hl.timed o hom (by rw [← ha]; exact hnone)
  marker_once := by rw [hm]; exact hl.marker_once
  fence_marker := by rw [hf, hm]; exact hl.fence_marker
  fence_once := by rw [hf]; exact hl.fence_once
  use_once := by rw [hu]; exact hl.use_once
  used := by
    intro x hx hacc
    obtain ⟨r, hrm, hdraft⟩ := hr x hx hacc
    rw [hu]
    obtain ⟨u, hum, h1, h2, h3⟩ := hl.used r hrm (by rw [hdraft]; exact hacc)
    rw [hdraft] at h1 h2 h3
    exact ⟨u, hum, h1, h2, h3⟩

theorem Single.congr (hl : Single l) (ho : l'.orders = l.orders) (hr : l'.receipts = l.receipts)
    (hm : l'.markers = l.markers) (hf : l'.fences = l.fences) (hu : l'.eventUses = l.eventUses) : Single l' := by
  apply hl.of_stays ?_ ?_ hm hf hu
  · rw [ho]
    exact fun x hx => ⟨x, hx, rfl, rfl⟩
  · rw [hr]
    exact fun x hx _ => ⟨x, hx, rfl⟩

/-- Every change keeps what is stored, and what is single. -/
theorem Change.stays (h : Change sumText l l') (hl : Single l) : Stays l l' ∧ Single l' := by
  cases h with
  | opened h =>
    exact ⟨.of_eq (by rw [h.frame]) (by rw [h.frame]) (by rw [h.frame]) (by rw [h.frame]) (by rw [h.frame]),
      hl.congr (by rw [h.frame]) (by rw [h.frame]) (by rw [h.frame]) (by rw [h.frame]) (by rw [h.frame])⟩
  | valued h =>
    exact ⟨.of_eq (by rw [h]) (by rw [h]) (by rw [h]) (by rw [h]) (by rw [h]),
      hl.congr (by rw [h]) (by rw [h]) (by rw [h]) (by rw [h]) (by rw [h])⟩
  | begun h => exact ⟨h.stays, h.single hl⟩
  | @decided r h =>
    have hreceipts : ∀ x, x ∈ l'.receipts ↔ x ∈ l.receipts ∨ x = _ := fun _ => mem_insert? h.receipts
    constructor
    · exact { orders := by rw [h.frame]; exact (Stays.refl l).orders
              receipts := fun x hx => ⟨x, (hreceipts x).mpr (.inl hx), rfl⟩
              markers := by rw [h.frame]; exact fun _ hm => hm
              fences := by rw [h.frame]; exact fun _ hf => hf
              eventUses := by rw [h.frame]; exact fun _ hu => hu }
    · apply hl.of_stays ?_ ?_ (by rw [h.frame]) (by rw [h.frame]) (by rw [h.frame])
      · rw [h.frame]
        exact fun x hx => ⟨x, hx, rfl, rfl⟩
      · intro x hx hacc
        rcases (hreceipts x).mp hx with hx | rfl
        · exact ⟨x, hx, rfl⟩
        · exact absurd hacc h.status
  | committed h => exact ⟨h.stays hl, h.single hl⟩
  | fenced h => exact ⟨h.stays, h.single hl⟩
  | @canceled order code now h =>
    refine ⟨h.stays, hl.of_stays ?_ ?_ (by rw [h.frame]) (by rw [h.frame]) (by rw [h.frame])⟩
    · intro x hx
      rcases h.becomes hx with ⟨hx, -⟩ | rfl
      · exact ⟨x, hx, rfl, rfl⟩
      · exact ⟨order, h.order_mem, rfl, rfl⟩
    · rw [h.frame]
      exact fun x hx _ => ⟨x, hx, rfl⟩
  | @abandoned receiptId now h =>
    rw [h]
    refine ⟨stays_setAbandoned receiptId now, hl.of_stays (fun x hx => ⟨x, hx, rfl, rfl⟩) ?_ rfl rfl rfl⟩
    intro x hx _
    obtain ⟨r, hr, rfl⟩ := mem_setAbandoned.mp hx
    refine ⟨r, hr, ?_⟩
    split <;> rfl
  | @applied o now order account b added h =>
    refine ⟨h.stays, hl.of_stays ?_ ?_ (by rw [h.frame]) (by rw [h.frame]) (by rw [h.frame])⟩
    · intro x hx
      rcases h.becomes.mp hx with ⟨hx, -⟩ | rfl
      · exact ⟨x, hx, rfl, rfl⟩
      · exact ⟨order, h.order_mem, rfl, rfl⟩
    · rw [h.frame]
      exact fun x hx _ => ⟨x, hx, rfl⟩

/-! ## Fills behind their fence -/

/-- What a fill was checked against. -/
structure FillChecks (order : PendingOrder) (receipt : ReceiptDraft) (marker : MarkerRow) (fence : Fence)
    (clock : ClockQuality) (o : MarketObservation) (fill : Fill) : Prop where
  order_id : order.orderId = fill.orderId
  order_receipt : order.receiptId = fill.receiptId
  receipt_id : receipt.receiptId = fill.receiptId
  marker_receipt : marker.receiptId = fill.receiptId
  fence_receipt : fence.receiptId = fill.receiptId
  fence_marker : fence.markerId = marker.markerId
  quote : fill.quoteRef = o.observationId
  times : fill.marketEventAt = o.marketEventAt ∧ fill.marketAvailableAt = o.marketAvailableAt
  asset : o.asset = order.asset
  identity : ∃ quote, receipt.decisionQuote = some quote ∧ o.identity ≠ quote
  sequence : receipt.inputCutoffSequence < o.ingestSequence
  admitted : fence.fenceAt + fence.clockQuality.budget < o.availableAt
  later : ∃ notBefore, order.notBeforeAt = some notBefore ∧
    notBefore + max clock.budget fence.clockQuality.budget < o.marketEventAt ∧
    notBefore + max clock.budget fence.clockQuality.budget < o.marketAvailableAt

/-- The fill's receipt is marked and fenced, and its observation passed the fence and the order's instant. -/
def BehindFence (l : Ledger) (clock : ClockQuality) (o : MarketObservation) (fill : Fill) : Prop :=
  ∃ order ∈ l.orders, ∃ receipt ∈ l.receipts, ∃ marker ∈ l.markers, ∃ fence ∈ l.fences,
    FillChecks order receipt.toReceiptDraft marker fence clock o fill

theorem BehindFence.stays {clock : ClockQuality} {o : MarketObservation} (h : BehindFence l clock o fill)
    (hs : Stays l l') : BehindFence l' clock o fill := by
  obtain ⟨order, ho, receipt, hr, marker, hm, fence, hf, hc⟩ := h
  obtain ⟨order', ho', hid, hrec, hasset, hnb⟩ := hs.orders order ho
  obtain ⟨receipt', hr', hdraft⟩ := hs.receipts receipt hr
  refine ⟨order', ho', receipt', hr', marker, hs.markers marker hm, fence, hs.fences fence hf, ?_⟩
  rw [hdraft]
  obtain ⟨t, ht, hevent, havail⟩ := hc.later
  exact { order_id := hid.trans hc.order_id, order_receipt := hrec.trans hc.order_receipt, receipt_id := hc.receipt_id,
          marker_receipt := hc.marker_receipt, fence_receipt := hc.fence_receipt, fence_marker := hc.fence_marker,
          quote := hc.quote, times := hc.times, asset := by rw [hasset]; exact hc.asset, identity := hc.identity,
          sequence := hc.sequence, admitted := hc.admitted, later := ⟨t, hnb t ht, hevent, havail⟩ }

def Attempt.HandsOver (a : Attempt) (o : MarketObservation) : Prop :=
  match a.call with
  | .processObservations _ observations _ _ _ => o ∈ observations
  | _ => False

/-- A new fill is behind its fence in the ledger it was computed from. -/
theorem Executed.behindFence {a : Attempt} {x : Execution} {out : ExecutionOutcome}
    (h : Executed sumText a x out now b added l l') (hf : fill ∈ newFills l out) :
    ∃ o, a.HandsOver o ∧ BehindFence l a.manager.clockQuality o (fillRow x.order fill) := by
  obtain ⟨f, o, hfrom, isPartial, take, -, rfl⟩ := h.new_fill hf
  obtain ⟨hfm, marker, hm, hmr, hmf⟩ := h.fence f hfrom.fence_eq
  have hsel := hfrom.selected
  refine ⟨o, ?_, x.order, h.applied.order_mem, x.receipt, h.receipt_mem, marker, hm, f, hfm, ?_⟩
  · unfold Attempt.HandsOver
    rw [h.called]
    exact hsel.mem
  · exact { order_id := rfl, order_receipt := rfl, receipt_id := h.receipt_id, marker_receipt := hmr,
            fence_receipt := hfrom.fence_receipt, fence_marker := hmf.symm, quote := rfl, times := ⟨rfl, rfl⟩,
            asset := hsel.asset, identity := hsel.identity, sequence := hsel.sequence, admitted := hsel.admitted,
            later := hsel.later }

/-! ## Runs -/

/-- The fence holds: fills are behind it, it stays, and it is one; and no event is used twice. -/
structure FenceHolds (sumText : List ℚ → ℚ) (attempts : List Attempt) (l : Ledger) : Prop where
  fills : ∀ fill ∈ l.fills, ∃ a ∈ attempts, ∃ o, a.HandsOver o ∧ BehindFence l a.manager.clockQuality o fill
  stays : ∀ later l', Left sumText Always l later l' → Stays l l'
  fence_once : ∀ f ∈ l.fences, ∀ g ∈ l.fences, f.receiptId = g.receiptId → f = g
  use_once : ∀ u ∈ l.eventUses, ∀ v ∈ l.eventUses, u.runId = v.runId → u.scenarioId = v.scenarioId →
    u.eventGroupId = v.eventGroupId → u.asset = v.asset → u = v
  used : ∀ r ∈ l.receipts, r.status = .accepted → ∃ u ∈ l.eventUses, u.receiptId = r.receiptId ∧ u.runId = r.runId ∧
    u.scenarioId = r.scenarioId

/-- **The fill fence.** It holds of every ledger that attempts leave behind, wherever each of them died. -/
theorem fence_holds {attempts : List Attempt} (h : Left sumText Always .empty attempts l) :
    FenceHolds sumText attempts l := by
  have hall : Single l ∧ ∀ fill ∈ l.fills, ∃ a ∈ attempts, ∃ o, a.HandsOver o ∧
      BehindFence l a.manager.clockQuality o fill := by
    have hin : Left sumText (fun _ a => a ∈ attempts) .empty attempts l := h.mono (fun _ a ha _ => ha)
    apply hin.moved (P := fun m => Single m ∧ ∀ fill ∈ m.fills, ∃ a ∈ attempts, ∃ o, a.HandsOver o ∧
      BehindFence m a.manager.clockQuality o fill)
    · rintro a s m m' ha hmove ⟨hsingle, hfills⟩
      obtain ⟨hstays, hsingle'⟩ := hmove.change.stays hsingle
      refine ⟨hsingle', fun fill hfill => ?_⟩
      have hold : fill ∈ m.fills → ∃ a ∈ attempts, ∃ o, a.HandsOver o ∧
          BehindFence m' a.manager.clockQuality o fill := by
        intro hf
        obtain ⟨b, hb, o, ho, hbehind⟩ := hfills fill hf
        exact ⟨b, hb, o, ho, hbehind.stays hstays⟩
      cases hmove with
      | quiet hq =>
        apply hold
        rw [← hq.fills]
        exact hfill
      | accepted _ hacc =>
        apply hold
        rw [← hacc.begun.fills]
        exact hfill
      | executed _ _ hx =>
        rcases hx.applied.mem_fills hfill with hf | ⟨g, hg, rfl⟩
        · exact hold hf
        · obtain ⟨o, ho, hbehind⟩ := hx.behindFence hg
          exact ⟨a, ha, o, ho, hbehind.stays hstays⟩
    · exact ⟨single_empty, fun _ hf => absurd hf not_mem_empty⟩
  constructor
  · exact hall.2
  · intro later l' hlater
    have hboth : Stays l l' ∧ Single l' := by
      apply hlater.moved (P := fun m => Stays l m ∧ Single m)
      · rintro a s m m' _ hmove ⟨hs, hm⟩
        obtain ⟨hstays, hsingle⟩ := hmove.change.stays hm
        exact ⟨hs.trans hstays, hsingle⟩
      · exact ⟨Stays.refl l, hall.1⟩
    exact hboth.1
  · exact hall.1.fence_receipt
  · exact hall.1.use_once
  · exact hall.1.used

theorem fence_holds_twoOrders : (ranAll sqliteSum twoOrders).fills.rows.length = 1 ∧
    FenceHolds sqliteSum twoOrders (ranAll sqliteSum twoOrders) := by
  have hrun : Left sqliteSum Always .empty twoOrders (ranAll sqliteSum twoOrders) := by
    apply left_ranAll
    simp [MeetsAll, twoOrders, Always]
  constructor
  · decide +kernel
  · exact fence_holds hrun

end Docich.News
