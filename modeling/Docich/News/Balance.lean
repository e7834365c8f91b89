import Docich.News.Effects

/-!
# The order books

* `Change` is one effect of a transaction; a call makes no change, one, or two (`abandonReceipt`).
* `Booked` is what every ledger satisfies: fills and cancel events belong to orders, no level of a quote is filled
  twice, an order's filled quantity is the sum of its fills, and its reservation is held exactly while it is live.
-/

namespace Docich.News

open Durable List Table

variable {sumText : List ℚ → ℚ} {l l' : Ledger}

/-! ## Changes -/

inductive Change (sumText : List ℚ → ℚ) (l l' : Ledger) : Prop
  | opened {accountId : String} {cash : ℚ} (h : Opened accountId cash l l')
  | valued (h : l' = { l with valuations := l'.valuations })
  | begun {r : ReceiptDraft} {o : OrderDraft} {reservation : ReservationDraft} {use : EventUseDraft}
      (h : Begun r o reservation use l l')
  | decided {r : ReceiptDraft} (h : Decided r l l')
  | committed {receiptId : String} {t2 notBefore : Instant} {order : PendingOrder}
      (h : Committed receiptId t2 notBefore order l l')
  | fenced {receiptId : String} {fence : Fence} (h : Fenced receiptId fence l l')
  | canceled {order : PendingOrder} {code : String} {now : Instant} (h : Canceled order code now l l')
  | abandoned {receiptId : String} {now : Instant} (h : l' = { l with receipts := setAbandoned receiptId now l })
  | applied {o : ExecutionOutcome} {now : Instant} {order : PendingOrder} {account : AccountRow} {b : Books}
      {added : ℚ} (h : Applied sumText o now order account b added l l')

/-! ## Fills and cancel events of an order -/

theorem fillsOf_append {t : Table Fill.fillId} {fills : List Fill} (h : t.rows = l.fills.rows ++ fills) (id : String) :
    (t.rows.filter fun f => f.orderId = id) = fillsOf l id ++ fills.filter fun f => f.orderId = id := by
  rw [h, filter_append]
  rfl

variable {order o : PendingOrder} {b b' : Books} {id orderId : String} {now : Instant}

/-- The rows that an outcome's fills add. -/
theorem PostedAll.rows {fills : List Fill} (h : PostedAll order b fills b') :
    b'.fills.rows = b.fills.rows ++ fills.map (fillRow order) := by
  induction h with
  | nil b => simp
  | cons h hs ih =>
    rw [ih, (Table.insert?_eq_some h.fills).1]
    simp

theorem PostedAll.mem {fills : List Fill} (h : PostedAll order b fills b')
    {f : Fill} (hf : f ∈ b'.fills) : f ∈ b.fills ∨ ∃ g ∈ fills, f = fillRow order g := by
  rw [← mem_rows, h.rows] at hf
  rcases mem_append.mp hf with hf | hf
  · exact .inl hf
  · obtain ⟨g, hg, rfl⟩ := mem_map.mp hf
    exact .inr ⟨g, hg, rfl⟩

/-- No two fills of one order take the same level of a quote. -/
def FillsOnce (fills : Table Fill.fillId) : Prop :=
  ∀ f ∈ fills, ∀ g ∈ fills, f.orderId = g.orderId → f.quoteRef = g.quoteRef → f.levelIndex = g.levelIndex → f = g

theorem PostedAll.fillsOnce {fills : List Fill} (h : PostedAll order b fills b')
    (hb : FillsOnce b.fills) : FillsOnce b'.fills := by
  induction h with
  | nil b => exact hb
  | cons h hs ih =>
    apply ih
    intro f hf g hg ho hq hl
    rcases (mem_insert? h.fills).mp hf with hf | rfl
    · rcases (mem_insert? h.fills).mp hg with hg | rfl
      · exact hb f hf g hg ho hq hl
      · exact absurd ⟨ho, hq, hl⟩ (h.key_new f hf)
    · rcases (mem_insert? h.fills).mp hg with hg | rfl
      · exact absurd ⟨ho.symm, hq.symm, hl.symm⟩ (h.key_new g hg)
      · rfl

theorem canceledOf_insert {t : Table CancelRow.cancelId} {row : CancelRow} (h : l.cancels.insert? row = some t)
    (id : String) : ((t.rows.filter fun c => c.orderId = id).map CancelRow.quantity).sum =
      (canceledOf l id).sum + if row.orderId = id then row.quantity else 0 := by
  rw [(Table.insert?_eq_some h).1, filter_append, map_append, sum_append]
  by_cases hid : row.orderId = id
  · simp [canceledOf, hid]
  · simp [canceledOf, hid]

/-! ## Bookkeeping -/

/-- The order's reservation, held exactly while the order is live. -/
def Reserved (reservations : Table ReservationRow.reservationId) (o : PendingOrder) : Prop :=
  ∃ r ∈ reservations, r.reservationId = o.reservationId ∧ r.orderId = o.orderId ∧ r.accountId = o.accountId ∧
    (r.releasedAt = none ↔ o.status.terminal = false)

structure Booked (l : Ledger) : Prop where
  cancel_order : ∀ c ∈ l.cancels, ∃ o ∈ l.orders, o.orderId = c.orderId
  fill_order : ∀ f ∈ l.fills, ∃ o ∈ l.orders, f.orderId = o.orderId ∧ f.receiptId = o.receiptId ∧
    f.accountId = o.accountId ∧ f.asset = o.asset ∧ f.side = o.side
  fill_once : FillsOnce l.fills
  filled : ∀ o ∈ l.orders, o.filledQuantity = ((fillsOf l o.orderId).map Fill.quantity).sum
  reserved : ∀ o ∈ l.orders, Reserved l.reservations o
  reservation_once : ∀ r ∈ l.reservations, ∀ s ∈ l.reservations, r.orderId = s.orderId → r = s
  receipt_once : ∀ o ∈ l.orders, ∀ o' ∈ l.orders, o.receiptId = o'.receiptId → o = o'

theorem booked_empty : Booked .empty where
  cancel_order := fun _ h => absurd h not_mem_empty
  fill_order := fun _ h => absurd h not_mem_empty
  fill_once := fun _ h => absurd h not_mem_empty
  filled := fun _ h => absurd h not_mem_empty
  reserved := fun _ h => absurd h not_mem_empty
  reservation_once := fun _ h => absurd h not_mem_empty
  receipt_once := fun _ h => absurd h not_mem_empty

/-- What the bookkeeping reads. -/
theorem Booked.congr (h : Booked l) (hc : l'.cancels = l.cancels) (hf : l'.fills = l.fills)
    (ho : l'.orders = l.orders) (hr : l'.reservations = l.reservations) : Booked l' where
  cancel_order := by rw [hc, ho]; exact h.cancel_order
  fill_order := by rw [hf, ho]; exact h.fill_order
  fill_once := by rw [hf]; exact h.fill_once
  filled := by unfold fillsOf; rw [hf, ho]; exact h.filled
  reserved := by rw [ho, hr]; exact h.reserved
  reservation_once := by rw [hr]; exact h.reservation_once
  receipt_once := by rw [ho]; exact h.receipt_once

theorem Reserved.mono {t t' : Table ReservationRow.reservationId} (h : Reserved t o)
    (ht : ∀ r ∈ t, r ∈ t') : Reserved t' o := by
  obtain ⟨r, hr, hrest⟩ := h
  exact ⟨r, ht r hr, hrest⟩

theorem Booked.fillsOf_new (h : Booked l) (hid : ∀ o ∈ l.orders, o.orderId ≠ id) : fillsOf l id = [] := by
  apply filter_eq_nil_iff.mpr
  intro f hf
  obtain ⟨o, ho, hfo, -⟩ := h.fill_order f hf
  simp [hfo, hid o ho]

theorem Booked.canceledOf_new (h : Booked l) (hid : ∀ o ∈ l.orders, o.orderId ≠ id) :
    canceledOf l id = [] := by
  unfold canceledOf
  rw [map_eq_nil_iff]
  apply filter_eq_nil_iff.mpr
  intro c hc
  obtain ⟨o, ho, hoc⟩ := h.cancel_order c hc
  simp [← hoc, hid o ho]

section Begun

variable {r : ReceiptDraft} {o : OrderDraft} {reservation : ReservationDraft} {use : EventUseDraft}

variable (h : Begun r o reservation use l l')

include h

theorem Begun.mem_orders {x : PendingOrder} :
    x ∈ l'.orders ↔ x ∈ l.orders ∨ x = orderOf r o reservation use := mem_insert? h.orders

theorem Begun.mem_reservations {x : ReservationRow} :
    x ∈ l'.reservations ↔ x ∈ l.reservations ∨ x = reservationOf r o reservation := mem_insert? h.reservations

theorem Begun.fills : l'.fills = l.fills := by rw [h.frame]

theorem Begun.cancels : l'.cancels = l.cancels := by rw [h.frame]

theorem Begun.order_id_new : ∀ x ∈ l.orders, x.orderId ≠ o.orderId :=
  (Table.insert?_eq_some h.orders).2

theorem Begun.booked (hl : Booked l) : Booked l' where
  cancel_order := by
    intro c hc
    rw [h.cancels] at hc
    obtain ⟨x, hx, hxc⟩ := hl.cancel_order c hc
    exact ⟨x, h.mem_orders.mpr (.inl hx), hxc⟩
  fill_order := by
    intro f hf
    rw [h.fills] at hf
    obtain ⟨x, hx, hxf⟩ := hl.fill_order f hf
    exact ⟨x, h.mem_orders.mpr (.inl hx), hxf⟩
  fill_once := by
    rw [h.fills]
    exact hl.fill_once
  filled := by
    intro x hx
    have hfills : fillsOf l' x.orderId = fillsOf l x.orderId := by
      unfold fillsOf
      rw [h.fills]
    rw [hfills]
    rcases h.mem_orders.mp hx with hx | rfl
    · exact hl.filled x hx
    · have hnew : fillsOf l o.orderId = [] := hl.fillsOf_new h.order_id_new
      change 0 = ((fillsOf l o.orderId).map Fill.quantity).sum
      rw [hnew]
      rfl
  reserved := by
    intro x hx
    rcases h.mem_orders.mp hx with hx | rfl
    · exact (hl.reserved x hx).mono (fun y hy => h.mem_reservations.mpr (.inl hy))
    · exact ⟨_, h.mem_reservations.mpr (.inr rfl), rfl, rfl, rfl, by simp [reservationOf, orderOf, OrderStatus.terminal]⟩
  reservation_once := by
    intro x hx y hy hxy
    rcases h.mem_reservations.mp hx with hx | rfl
    · rcases h.mem_reservations.mp hy with hy | rfl
      · exact hl.reservation_once x hx y hy hxy
      · exact absurd hxy (h.reservation_new x hx)
    · rcases h.mem_reservations.mp hy with hy | rfl
      · exact absurd hxy.symm (h.reservation_new y hy)
      · rfl
  receipt_once := by
    intro x hx y hy hxy
    rcases h.mem_orders.mp hx with hx | rfl
    · rcases h.mem_orders.mp hy with hy | rfl
      · exact hl.receipt_once x hx y hy hxy
      · exact absurd hxy (h.order_new x hx).1
    · rcases h.mem_orders.mp hy with hy | rfl
      · exact absurd hxy.symm (h.order_new y hy).1
      · rfl

end Begun

/-! ## Releasing a reservation -/

theorem mem_release {x : ReservationRow} :
    x ∈ releaseReservation orderId now l ↔ ∃ r ∈ l.reservations,
      x = if r.orderId = orderId && r.releasedAt.isNone then { r with releasedAt := some now } else r :=
  mem_update

/-- A release keeps all columns but one. -/
theorem release_row (orderId : String) (now : Instant) (r : ReservationRow) :
    ∃ x, (if (r.orderId = orderId && r.releasedAt.isNone) = true then { r with releasedAt := some now } else r) =
      { r with releasedAt := x } ∧ (r.orderId = orderId → x ≠ none) ∧ (r.orderId ≠ orderId → x = r.releasedAt) := by
  by_cases hsel : (r.orderId = orderId && r.releasedAt.isNone) = true
  · rw [if_pos hsel]
    have hid : r.orderId = orderId := by
      simp only [Bool.and_eq_true, decide_eq_true_eq] at hsel
      exact hsel.1
    exact ⟨some now, rfl, fun _ => by simp, fun hne => absurd hid hne⟩
  · rw [if_neg hsel]
    refine ⟨r.releasedAt, rfl, fun hid hnone => hsel ?_, fun _ => rfl⟩
    simp [hid, hnone]

theorem release_once (h : ∀ r ∈ l.reservations, ∀ s ∈ l.reservations, r.orderId = s.orderId → r = s) :
    ∀ r ∈ releaseReservation orderId now l, ∀ s ∈ releaseReservation orderId now l, r.orderId = s.orderId → r = s := by
  intro x hx y hy hxy
  obtain ⟨r, hr, hxr⟩ := mem_release.mp hx
  obtain ⟨s, hs, hys⟩ := mem_release.mp hy
  obtain ⟨u, hu, -, -⟩ := release_row orderId now r
  obtain ⟨v, hv, -, -⟩ := release_row orderId now s
  have hrs : r.orderId = s.orderId := by
    rw [hxr, hys, hu, hv] at hxy
    exact hxy
  rw [hxr, hys, h r hr s hs hrs]

/-- The order whose reservation is released is final, the others stay as they were. -/
theorem Reserved.release {o' : PendingOrder} (h : Reserved l.reservations o)
    (hres : o'.reservationId = o.reservationId) (hid : o'.orderId = o.orderId) (hacc : o'.accountId = o.accountId)
    (hself : o.orderId = orderId → o'.status.terminal = true)
    (hother : o.orderId ≠ orderId → o'.status = o.status) : Reserved (releaseReservation orderId now l) o' := by
  obtain ⟨r, hr, hrid, hro, hra, hrel⟩ := h
  obtain ⟨x, hx, hxself, hxother⟩ := release_row orderId now r
  refine ⟨{ r with releasedAt := x }, mem_release.mpr ⟨r, hr, hx.symm⟩, ?_, ?_, ?_, ?_⟩
  · rw [hres]
    exact hrid
  · rw [hid]
    exact hro
  · rw [hacc]
    exact hra
  · by_cases ho : o.orderId = orderId
    · have hx' := hxself (hro.trans ho)
      simp [hself ho, hx']
    · rw [hother ho]
      rw [hxother (fun he => ho (hro.symm.trans he))]
      exact hrel

theorem mem_setCanceled {x : PendingOrder} : x ∈ setCanceled orderId l ↔ ∃ o ∈ l.orders,
    x = if o.orderId = orderId then { o with status := .canceled, remainingQuantity := 0 } else o := by
  unfold setCanceled
  rw [mem_update]
  simp only [decide_eq_true_eq]

/-- Orders that keep their two ids keep one receipt each. -/
theorem receipt_once_of {t : Table PendingOrder.orderId} (h : ∀ x ∈ t, ∃ o ∈ l.orders, o.orderId = x.orderId ∧
    o.receiptId = x.receiptId) (hl : ∀ o ∈ l.orders, ∀ o' ∈ l.orders, o.receiptId = o'.receiptId → o = o') :
    ∀ x ∈ t, ∀ y ∈ t, x.receiptId = y.receiptId → x = y := by
  intro x hx y hy hxy
  obtain ⟨o, ho, hox, hor⟩ := h x hx
  obtain ⟨o', ho', hoy, hor'⟩ := h y hy
  have heq : o = o' := hl o ho o' ho' (by rw [hor, hor', hxy])
  exact eq_of_key_eq hx hy (by rw [← hox, ← hoy, heq])

/-! ## Canceling -/

section Canceled

variable {order : PendingOrder} {code : String} {now : Instant}

variable (h : Canceled order code now l l')

include h

theorem Canceled.orders : l'.orders = setCanceled order.orderId l := by rw [h.frame]

theorem Canceled.fills : l'.fills = l.fills := by rw [h.frame]

theorem Canceled.reservations :
    l'.reservations = releaseReservation order.orderId now l := by rw [h.frame]

/-- What becomes of an order. -/
theorem Canceled.becomes {x : PendingOrder} (hx : x ∈ l'.orders) :
    x ∈ l.orders ∧ x.orderId ≠ order.orderId ∨ x = { order with status := .canceled, remainingQuantity := 0 } := by
  rw [h.orders] at hx
  obtain ⟨o, ho, rfl⟩ := mem_setCanceled.mp hx
  by_cases hid : o.orderId = order.orderId
  · have heq : o = order := eq_of_key_eq ho h.order_mem hid
    rw [if_pos hid, heq]
    exact .inr rfl
  · rw [if_neg hid]
    exact .inl ⟨ho, hid⟩

theorem Canceled.mem_orders {o : PendingOrder} (ho : o ∈ l.orders) :
    ∃ x ∈ l'.orders, x.orderId = o.orderId ∧ x.receiptId = o.receiptId ∧ x.accountId = o.accountId ∧
      x.asset = o.asset ∧ x.side = o.side := by
  rw [h.orders]
  refine ⟨_, mem_setCanceled.mpr ⟨o, ho, rfl⟩, ?_⟩
  split <;> simp

theorem Canceled.booked (hl : Booked l) : Booked l' where
  cancel_order := by
    intro c hc
    rcases (mem_insert? h.cancels).mp hc with hc | rfl
    · obtain ⟨o, ho, hoc⟩ := hl.cancel_order c hc
      obtain ⟨x, hx, hxo, -⟩ := h.mem_orders ho
      exact ⟨x, hx, hxo.trans hoc⟩
    · obtain ⟨x, hx, hxo, -⟩ := h.mem_orders h.order_mem
      exact ⟨x, hx, hxo⟩
  fill_order := by
    intro f hf
    rw [h.fills] at hf
    obtain ⟨o, ho, h1, h2, h3, h4, h5⟩ := hl.fill_order f hf
    obtain ⟨x, hx, e1, e2, e3, e4, e5⟩ := h.mem_orders ho
    exact ⟨x, hx, h1.trans e1.symm, h2.trans e2.symm, h3.trans e3.symm, h4.trans e4.symm, h5.trans e5.symm⟩
  fill_once := by
    rw [h.fills]
    exact hl.fill_once
  filled := by
    intro x hx
    have hfills : fillsOf l' x.orderId = fillsOf l x.orderId := by
      unfold fillsOf
      rw [h.fills]
    rw [hfills]
    rcases h.becomes hx with ⟨hx, -⟩ | rfl
    · exact hl.filled x hx
    · exact hl.filled order h.order_mem
  reserved := by
    intro x hx
    rw [h.reservations]
    rcases h.becomes hx with ⟨hx, hne⟩ | rfl
    · exact (hl.reserved x hx).release rfl rfl rfl (fun he => absurd he hne) (fun _ => rfl)
    · exact (hl.reserved order h.order_mem).release rfl rfl rfl (fun _ => rfl) (fun hne => absurd rfl hne)
  reservation_once := by
    rw [h.reservations]
    exact release_once hl.reservation_once
  receipt_once := by
    apply receipt_once_of (fun x hx => ?_) hl.receipt_once
    rcases h.becomes hx with ⟨hx, -⟩ | rfl
    · exact ⟨x, hx, rfl, rfl⟩
    · exact ⟨order, h.order_mem, rfl, rfl⟩

end Canceled

/-! ## Committing -/

section Committed

variable {receiptId : String} {t2 notBefore : Instant} {order : PendingOrder}

variable (h : Committed receiptId t2 notBefore order l l')

include h

theorem Committed.orders :
    l'.orders = setAccepted order.orderId t2 notBefore l := by rw [h.frame]

theorem Committed.fills : l'.fills = l.fills := by rw [h.frame]

theorem Committed.cancels : l'.cancels = l.cancels := by
  rw [h.frame]

theorem Committed.reservations :
    l'.reservations = l.reservations := by rw [h.frame]

/-- An order keeps everything but its two instants, which only the receipt's own order gets. -/
theorem Committed.becomes {x : PendingOrder} :
    x ∈ l'.orders ↔ x ∈ l.orders ∧ x.orderId ≠ order.orderId ∨
      x = { order with acceptedAt := some t2, notBeforeAt := some notBefore } := by
  have hsel : ∀ o ∈ l.orders, ((o.orderId = order.orderId && o.acceptedAt.isNone) = true ↔ o = order) := by
    intro o ho
    constructor
    · intro hp
      simp only [Bool.and_eq_true, decide_eq_true_eq] at hp
      exact eq_of_key_eq ho h.order_mem hp.1
    · rintro rfl
      simp [h.not_accepted]
  rw [h.orders, setAccepted, mem_update]
  constructor
  · rintro ⟨o, ho, rfl⟩
    by_cases heq : o = order
    · rw [if_pos ((hsel o ho).mpr heq), heq]
      exact .inr rfl
    · rw [if_neg (fun hp => heq ((hsel o ho).mp hp))]
      exact .inl ⟨ho, fun hid => heq (eq_of_key_eq ho h.order_mem hid)⟩
  · rintro (⟨hx, hne⟩ | rfl)
    · refine ⟨x, hx, ?_⟩
      rw [if_neg]
      intro hp
      exact hne (by rw [(hsel x hx).mp hp])
    · exact ⟨order, h.order_mem, by rw [if_pos ((hsel order h.order_mem).mpr rfl)]⟩

theorem Committed.of_mem {x : PendingOrder} (hx : x ∈ l'.orders) :
    ∃ o ∈ l.orders, x = { o with acceptedAt := x.acceptedAt, notBeforeAt := x.notBeforeAt } := by
  rcases h.becomes.mp hx with ⟨hx, -⟩ | rfl
  · exact ⟨x, hx, rfl⟩
  · exact ⟨order, h.order_mem, rfl⟩

theorem Committed.mem_orders {o : PendingOrder} (ho : o ∈ l.orders) :
    ∃ x ∈ l'.orders, x = { o with acceptedAt := x.acceptedAt, notBeforeAt := x.notBeforeAt } := by
  by_cases hid : o.orderId = order.orderId
  · have heq : o = order := eq_of_key_eq ho h.order_mem hid
    exact ⟨_, h.becomes.mpr (.inr rfl), by rw [heq]⟩
  · exact ⟨o, h.becomes.mpr (.inl ⟨ho, hid⟩), rfl⟩

theorem Committed.booked (hl : Booked l) : Booked l' where
  cancel_order := by
    intro c hc
    rw [h.cancels] at hc
    obtain ⟨o, ho, hoc⟩ := hl.cancel_order c hc
    obtain ⟨x, hx, hxo⟩ := h.mem_orders ho
    exact ⟨x, hx, by rw [hxo]; exact hoc⟩
  fill_order := by
    intro f hf
    rw [h.fills] at hf
    obtain ⟨o, ho, hof⟩ := hl.fill_order f hf
    obtain ⟨x, hx, hxo⟩ := h.mem_orders ho
    exact ⟨x, hx, by rw [hxo]; exact hof⟩
  fill_once := by
    rw [h.fills]
    exact hl.fill_once
  filled := by
    intro x hx
    have hfills : fillsOf l' x.orderId = fillsOf l x.orderId := by
      unfold fillsOf
      rw [h.fills]
    rw [hfills]
    obtain ⟨o, ho, hxo⟩ := h.of_mem hx
    rw [hxo]
    exact hl.filled o ho
  reserved := by
    intro x hx
    rw [h.reservations]
    obtain ⟨o, ho, hxo⟩ := h.of_mem hx
    rw [hxo]
    exact hl.reserved o ho
  reservation_once := by
    rw [h.reservations]
    exact hl.reservation_once
  receipt_once := by
    apply receipt_once_of (fun x hx => ?_) hl.receipt_once
    obtain ⟨o, ho, hxo⟩ := h.of_mem hx
    exact ⟨o, ho, by rw [hxo], by rw [hxo]⟩

end Committed

/-! ## Applying -/

section Applied

variable {o : ExecutionOutcome} {now : Instant} {order : PendingOrder} {account : AccountRow} {b : Books} {added : ℚ}

def filledAfter (l : Ledger) (o : ExecutionOutcome) (order : PendingOrder) : ℚ :=
  order.filledQuantity + ((newFills l o).map Fill.quantity).sum

variable (h : Applied sumText o now order account b added l l')

include h

theorem Applied.orders :
    l'.orders = setExecuted o (filledAfter l o order) l := by
  rw [h.frame]
  rfl

theorem Applied.fills : l'.fills = b.fills := by rw [h.frame]

theorem Applied.reservations : l'.reservations =
    if o.status.terminal then releaseReservation o.orderId now l else l.reservations := by rw [h.frame]

/-- What becomes of an order. -/
theorem Applied.becomes {x : PendingOrder} :
    x ∈ l'.orders ↔ x ∈ l.orders ∧ x.orderId ≠ order.orderId ∨
      x = { order with status := o.status, filledQuantity := filledAfter l o order,
                       remainingQuantity := o.remainingQuantity } := by
  rw [h.orders, setExecuted, mem_update]
  constructor
  · rintro ⟨y, hy, rfl⟩
    by_cases hid : y.orderId = o.orderId
    · have heq : y = order := eq_of_key_eq hy h.order_mem (hid.trans h.order_id.symm)
      rw [if_pos (by simpa using hid), heq]
      exact .inr rfl
    · rw [if_neg (by simpa using hid)]
      exact .inl ⟨hy, fun he => hid (he.trans h.order_id)⟩
  · rintro (⟨hx, hne⟩ | rfl)
    · refine ⟨x, hx, ?_⟩
      rw [if_neg]
      intro hp
      exact hne ((by simpa using hp : x.orderId = o.orderId).trans h.order_id.symm)
    · exact ⟨order, h.order_mem, by rw [if_pos (by simpa using h.order_id)]⟩

theorem Applied.mem_orders {y : PendingOrder}
    (hy : y ∈ l.orders) : ∃ x ∈ l'.orders, x.orderId = y.orderId ∧ x.receiptId = y.receiptId ∧
      x.accountId = y.accountId ∧ x.asset = y.asset ∧ x.side = y.side := by
  by_cases hid : y.orderId = order.orderId
  · have heq : y = order := eq_of_key_eq hy h.order_mem hid
    exact ⟨_, h.becomes.mpr (.inr rfl), by rw [heq]; exact ⟨rfl, rfl, rfl, rfl, rfl⟩⟩
  · exact ⟨y, h.becomes.mpr (.inl ⟨hy, hid⟩), rfl, rfl, rfl, rfl, rfl⟩

theorem Applied.rows :
    l'.fills.rows = l.fills.rows ++ (newFills l o).map (fillRow order) := by
  rw [h.fills, h.posted.rows]
  rfl

theorem Applied.mem_fills {f : Fill} (hf : f ∈ l'.fills) :
    f ∈ l.fills ∨ ∃ g ∈ newFills l o, f = fillRow order g := by
  rw [h.fills] at hf
  exact h.posted.mem hf

/-- The fills of an order after the outcome. -/
theorem Applied.fillsOf_eq (id : String) :
    fillsOf l' id = fillsOf l id ++ if order.orderId = id then (newFills l o).map (fillRow order) else [] := by
  rw [fillsOf, fillsOf_append h.rows]
  congr 1
  by_cases hid : order.orderId = id
  · rw [if_pos hid, filter_eq_self]
    intro f hf
    obtain ⟨g, -, rfl⟩ := mem_map.mp hf
    exact decide_eq_true hid
  · rw [if_neg hid, filter_eq_nil_iff]
    intro f hf hsel
    obtain ⟨g, -, rfl⟩ := mem_map.mp hf
    exact hid (of_decide_eq_true hsel)

theorem Applied.mem_cancels {c : CancelRow}
    (hc : c ∈ l'.cancels) : c ∈ l.cancels ∨ c.orderId = order.orderId := by
  rcases h.cancel with he | ⟨-, code, he⟩
  · obtain ⟨hcs, -⟩ := Prod.mk.inj he
    rw [hcs] at hc
    exact .inl hc
  · rcases (mem_insert? he).mp hc with hc | rfl
    · exact .inl hc
    · exact .inr h.order_id.symm

theorem Applied.booked (hl : Booked l) : Booked l' where
  cancel_order := by
    intro c hc
    rcases h.mem_cancels hc with hc | hco
    · obtain ⟨y, hy, hyc⟩ := hl.cancel_order c hc
      obtain ⟨x, hx, hxy, -⟩ := h.mem_orders hy
      exact ⟨x, hx, hxy.trans hyc⟩
    · obtain ⟨x, hx, hxy, -⟩ := h.mem_orders h.order_mem
      exact ⟨x, hx, hxy.trans hco.symm⟩
  fill_order := by
    intro f hf
    rcases h.mem_fills hf with hf | ⟨g, -, rfl⟩
    · obtain ⟨y, hy, h1, h2, h3, h4, h5⟩ := hl.fill_order f hf
      obtain ⟨x, hx, e1, e2, e3, e4, e5⟩ := h.mem_orders hy
      exact ⟨x, hx, h1.trans e1.symm, h2.trans e2.symm, h3.trans e3.symm, h4.trans e4.symm, h5.trans e5.symm⟩
    · obtain ⟨x, hx, e1, e2, e3, e4, e5⟩ := h.mem_orders h.order_mem
      exact ⟨x, hx, e1.symm, e2.symm, e3.symm, e4.symm, e5.symm⟩
  fill_once := by
    rw [h.fills]
    exact h.posted.fillsOnce hl.fill_once
  filled := by
    intro x hx
    rw [h.fillsOf_eq]
    rcases h.becomes.mp hx with ⟨hx, hne⟩ | rfl
    · rw [if_neg hne.symm, append_nil]
      exact hl.filled x hx
    · have hold := hl.filled order h.order_mem
      simp only [if_true, map_append, map_map, sum_append]
      rw [← hold]
      rfl
  reserved := by
    intro x hx
    rw [h.reservations]
    by_cases hterm : o.status.terminal = true
    · rw [if_pos hterm, ← h.order_id]
      rcases h.becomes.mp hx with ⟨hx, hne⟩ | rfl
      · exact (hl.reserved x hx).release rfl rfl rfl (fun he => absurd he hne) (fun _ => rfl)
      · exact (hl.reserved order h.order_mem).release rfl rfl rfl (fun _ => hterm) (fun hne => absurd rfl hne)
    · rw [if_neg hterm]
      rcases h.becomes.mp hx with ⟨hx, -⟩ | rfl
      · exact hl.reserved x hx
      · obtain ⟨r, hr, h1, h2, h3, h4⟩ := hl.reserved order h.order_mem
        refine ⟨r, hr, h1, h2, h3, ?_⟩
        rw [h4]
        simp [h.live, hterm]
  reservation_once := by
    rw [h.reservations]
    by_cases hterm : o.status.terminal = true
    · rw [if_pos hterm]
      exact release_once hl.reservation_once
    · rw [if_neg hterm]
      exact hl.reservation_once
  receipt_once := by
    apply receipt_once_of (fun x hx => ?_) hl.receipt_once
    rcases h.becomes.mp hx with ⟨hx, -⟩ | rfl
    · exact ⟨x, hx, rfl, rfl⟩
    · exact ⟨order, h.order_mem, rfl, rfl⟩

end Applied

/-- Every change keeps the bookkeeping. -/
theorem Change.booked (h : Change sumText l l') (hl : Booked l) : Booked l' := by
  cases h with
  | opened h => exact hl.congr (by rw [h.frame]) (by rw [h.frame]) (by rw [h.frame]) (by rw [h.frame])
  | valued h => exact hl.congr (by rw [h]) (by rw [h]) (by rw [h]) (by rw [h])
  | begun h => exact h.booked hl
  | decided h => exact hl.congr (by rw [h.frame]) (by rw [h.frame]) (by rw [h.frame]) (by rw [h.frame])
  | committed h => exact h.booked hl
  | fenced h => exact hl.congr (by rw [h.frame]) (by rw [h.frame]) (by rw [h.frame]) (by rw [h.frame])
  | canceled h => exact h.booked hl
  | abandoned h => exact hl.congr (by rw [h]) (by rw [h]) (by rw [h]) (by rw [h])
  | applied h => exact h.booked hl

end Docich.News
