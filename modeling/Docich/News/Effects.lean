import Docich.News.Ledger

/-!
# What a transaction does

For each transaction of the ledger, a structure with the ledger it commits and everything its checks guarantee, and
the lemma that a call which does not raise has that effect (`beginReceipt_ok`, `applyExecution_ok` and their like).
Invariants are proved from these structures; no proof looks into a transaction again.
-/

namespace Docich.News

open Durable

variable {l l' : Ledger}

theorem inserted_ok {α : Type} {x : Option α} {t : α} (h : inserted x = .ok t) : x = some t := by
  cases x with
  | none => cases h
  | some a =>
    cases h
    rfl

theorem find_rows_some {α κ : Type} {key : α → κ} {t : Table key} {p : α → Bool} {a : α} (h : t.rows.find? p = some a) :
    a ∈ t ∧ p a = true :=
  ⟨List.mem_of_find?_eq_some h, List.find?_some h⟩

/-! ## The first phase -/

/-- An acceptance bundle is stored. -/
structure Begun (r : ReceiptDraft) (o : OrderDraft) (reservation : ReservationDraft) (use : EventUseDraft)
    (l l' : Ledger) : Prop where
  accepted : r.status = .accepted
  requested_pos : 0 < o.requestedQuantity
  quantity_nonneg : 0 ≤ reservation.quantity
  amount_dec : isDec reservation.amount
  amount_nonneg : 0 ≤ reservation.amount
  account : (l.accounts.find? r.accountId).isSome
  receipt_new : ∀ row ∈ l.receipts, row.receiptId ≠ r.receiptId
  use_new : ∀ row ∈ l.eventUses, ¬ (row.runId = r.runId ∧ row.scenarioId = r.scenarioId
    ∧ row.eventGroupId = use.eventGroupId ∧ row.asset = use.asset)
  reservation_new : ∀ row ∈ l.reservations, row.orderId ≠ o.orderId
  order_new : ∀ row ∈ l.orders, row.receiptId ≠ r.receiptId ∧ row.reservationId ≠ reservation.reservationId
  eventUses : l.eventUses.insert? ⟨use.eventUseId, r.runId, r.scenarioId, use.eventGroupId, use.asset, r.receiptId⟩ =
    some l'.eventUses
  reservations : l.reservations.insert? (reservationOf r o reservation) = some l'.reservations
  orders : l.orders.insert? (orderOf r o reservation use) = some l'.orders
  receipts : l.receipts.insert? { r with orderRef := some o.orderId, receiptCommittedAt := none, abandonedAt := none } =
    some l'.receipts
  frame : l' = { l with eventUses := l'.eventUses, reservations := l'.reservations, orders := l'.orders,
                        receipts := l'.receipts }

variable {r : ReceiptDraft} {order : PendingOrder} {receiptId : String}
variable {use : EventUseDraft} {o : OrderDraft} {reservation : ReservationDraft}
    {orderRef : Option String} {u : Unit} {now : Instant} {orderId code accountId : String}
    {x : ApplyResult} {b b' : Books}

theorem insertEventUse_ok {t : Table EventUseRow.eventUseId}
    (h : insertEventUse l r use = .ok t) : (∀ row ∈ l.eventUses, ¬ (row.runId = r.runId ∧ row.scenarioId = r.scenarioId
      ∧ row.eventGroupId = use.eventGroupId ∧ row.asset = use.asset)) ∧
    l.eventUses.insert? ⟨use.eventUseId, r.runId, r.scenarioId, use.eventGroupId, use.asset, r.receiptId⟩ = some t := by
  obtain ⟨_, -, h⟩ := bind_ok h
  obtain ⟨_, -, h⟩ := bind_ok h
  obtain ⟨_, -, h⟩ := bind_ok h
  obtain ⟨hnew, h⟩ := require_bind_ok h
  exact ⟨hnew, inserted_ok h⟩

theorem insertReservation_ok {t : Table ReservationRow.reservationId} (h : insertReservation l r o reservation = .ok t) :
    0 ≤ reservation.quantity ∧ isDec reservation.amount ∧ 0 ≤ reservation.amount ∧
      (∀ row ∈ l.reservations, row.orderId ≠ o.orderId) ∧
      l.reservations.insert? (reservationOf r o reservation) = some t := by
  obtain ⟨_, -, h⟩ := bind_ok h
  obtain ⟨q, hq, h⟩ := bind_ok h
  obtain ⟨a, ha, h⟩ := bind_ok h
  obtain ⟨hnew, h⟩ := require_bind_ok h
  exact ⟨(dec_ok hq).2.2, (dec_ok ha).2.1, (dec_ok ha).2.2, hnew, inserted_ok h⟩

theorem insertOrder_ok {t : Table PendingOrder.orderId} (h : insertOrder l order = .ok t) :
    (∀ row ∈ l.orders, row.receiptId ≠ order.receiptId ∧ row.reservationId ≠ order.reservationId) ∧
      l.orders.insert? order = some t := by
  obtain ⟨hnew, h⟩ := require_bind_ok h
  exact ⟨hnew, inserted_ok h⟩

theorem insertReceipt_ok {t : Table (fun r : ReceiptRow => r.receiptId)}
    (h : insertReceipt l r orderRef = .ok t) :
    l.receipts.insert? { r with orderRef := orderRef, receiptCommittedAt := none, abandonedAt := none } = some t := by
  obtain ⟨-, h⟩ := require_bind_ok h
  exact inserted_ok h

theorem checkNewReceipt_ok (h : checkNewReceipt l r = .ok u) :
    (l.accounts.find? r.accountId).isSome ∧ ∀ row ∈ l.receipts, row.receiptId ≠ r.receiptId := by
  obtain ⟨hacc, h⟩ := require_bind_ok h
  have hnone := require_ok h
  exact ⟨hacc, Table.find?_eq_none.mp (Option.isNone_iff_eq_none.mp hnone)⟩

theorem checkReceipt_ok (h : checkReceipt r orderRef = .ok u) :
    (r.status = .accepted ↔ orderRef.isSome) ∧ 1 ≤ r.inputCutoffSequence := by
  obtain ⟨hstatus, h⟩ := require_bind_ok h
  obtain ⟨_, -, h⟩ := bind_ok h
  obtain ⟨-, h⟩ := require_bind_ok h
  obtain ⟨_, -, h⟩ := bind_ok h
  obtain ⟨-, h⟩ := require_bind_ok h
  obtain ⟨_, -, h⟩ := bind_ok h
  obtain ⟨-, h⟩ := require_bind_ok h
  obtain ⟨hcutoff, -⟩ := require_bind_ok h
  exact ⟨hstatus, hcutoff⟩

theorem beginReceipt_ok (h : beginReceipt r o reservation use l = .ok (l', u)) : Begun r o reservation use l l' := by
  obtain ⟨_, hr, h⟩ := bind_ok h
  obtain ⟨_, ho, h⟩ := bind_ok h
  obtain ⟨_, hn, h⟩ := bind_ok h
  obtain ⟨eventUses, hu, h⟩ := bind_ok h
  obtain ⟨reservations, hres, h⟩ := bind_ok h
  obtain ⟨orders, hord, h⟩ := bind_ok h
  obtain ⟨receipts, hrec, h⟩ := bind_ok h
  cases h
  have hpos : 0 < o.requestedQuantity := by
    obtain ⟨_, -, ho⟩ := bind_ok ho
    obtain ⟨q, hq, -⟩ := bind_ok ho
    exact (decPositive_ok hq).2.2
  obtain ⟨hacc, hnew⟩ := checkNewReceipt_ok hn
  obtain ⟨huse, huse'⟩ := insertEventUse_ok hu
  obtain ⟨hq, hdec, ha, hres, hres'⟩ := insertReservation_ok hres
  obtain ⟨hord, hord'⟩ := insertOrder_ok hord
  exact { accepted := (checkReceipt_ok hr).1.mpr rfl, requested_pos := hpos, quantity_nonneg := hq, amount_dec := hdec,
          amount_nonneg := ha, account := hacc, receipt_new := hnew, use_new := huse, reservation_new := hres,
          order_new := hord, eventUses := huse', reservations := hres', orders := hord',
          receipts := insertReceipt_ok hrec, frame := rfl }

/-- A decision is stored without an order. -/
structure Decided (r : ReceiptDraft) (l l' : Ledger) : Prop where
  status : r.status ≠ .accepted
  receipt_new : ∀ row ∈ l.receipts, row.receiptId ≠ r.receiptId
  receipts : l.receipts.insert? { r with orderRef := none, receiptCommittedAt := none, abandonedAt := none } =
    some l'.receipts
  frame : l' = { l with receipts := l'.receipts }

theorem recordDecisionOnly_ok (h : recordDecisionOnly r l = .ok (l', u)) : Decided r l l' := by
  obtain ⟨hstatus, h⟩ := require_bind_ok h
  obtain ⟨_, -, h⟩ := bind_ok h
  obtain ⟨_, hn, h⟩ := bind_ok h
  obtain ⟨receipts, hrec, h⟩ := bind_ok h
  cases h
  exact ⟨hstatus, (checkNewReceipt_ok hn).2, insertReceipt_ok hrec, rfl⟩

/-! ## The second phase and the fence -/

/-- A receipt is committed: its marker is stored with the one instant the order may be filled from. -/
structure Committed (receiptId : String) (t2 notBefore : Instant) (order : PendingOrder) (l l' : Ledger) : Prop where
  order_mem : order ∈ l.orders
  order_receipt : order.receiptId = receiptId
  not_accepted : order.acceptedAt = none
  receipt_mem : ∃ row ∈ l.receipts, row.receiptId = receiptId ∧ row.status = .accepted ∧ row.receiptCommittedAt = none
  marker_new : ∀ m ∈ l.markers, m.receiptId ≠ receiptId
  markers : l.markers.insert? ⟨"marker:" ++ receiptId, receiptId, notBefore, t2⟩ = some l'.markers
  frame : l' = { l with receipts := setCommitted receiptId t2 l, orders := setAccepted order.orderId t2 notBefore l,
                        markers := l'.markers }

theorem orderOfReceipt_some (h : orderOfReceipt l receiptId = some order) :
    order ∈ l.orders ∧ order.receiptId = receiptId := by
  obtain ⟨hm, hp⟩ := find_rows_some h
  exact ⟨hm, by simpa using hp⟩

theorem commitReceipt_ok {delay : ℚ} {t2 : Instant} {x : CommitResult}
    (h : commitReceipt receiptId delay t2 l = .ok (l', x)) :
    l' = l ∨ ∃ order notBefore, Committed receiptId t2 notBefore order l l' := by
  obtain ⟨_, -, h⟩ := bind_ok h
  obtain ⟨d, -, h⟩ := bind_ok h
  split at h
  · next receipt order hr ho =>
    split at h
    · cases h
      exact .inl rfl
    · next hcommitted =>
      obtain ⟨hstatus, h⟩ := require_bind_ok h
      split at h
      · cases h
        exact .inl rfl
      · dsimp only at h
        obtain ⟨haccepted, h⟩ := require_bind_ok h
        obtain ⟨markers, hm, h⟩ := bind_ok h
        cases h
        obtain ⟨homem, hor⟩ := orderOfReceipt_some ho
        obtain ⟨hrmem, hrid⟩ := Table.find?_eq_some.mp hr
        obtain ⟨hnew, hm⟩ := require_bind_ok hm
        exact .inr ⟨order, notBeforeOf t2 order.expiresAt d,
          { order_mem := homem, order_receipt := hor, not_accepted := Option.isNone_iff_eq_none.mp haccepted,
            receipt_mem := ⟨receipt, hrmem, hrid, hstatus.1, by simpa using hcommitted⟩, marker_new := hnew,
            markers := inserted_ok hm, frame := rfl }⟩
  · cases h

/-- A fence is stored for a marker that had none. -/
structure Fenced (receiptId : String) (fence : Fence) (l l' : Ledger) : Prop where
  marker : ∃ m ∈ l.markers, m.receiptId = receiptId ∧ m.markerId = fence.markerId
  receipt : fence.receiptId = receiptId
  fence_new : ∀ f ∈ l.fences, f.markerId ≠ fence.markerId
  fences : l.fences.insert? fence = some l'.fences
  frame : l' = { l with fences := l'.fences }

/-- A fence is returned only when it is stored, for a stored marker of the receipt. -/
theorem establishFence_ok {quality : ClockQuality} {workerId : String}
    {x : Option Fence} (h : establishFence receiptId quality workerId now l = .ok (l', x)) :
    (l' = l ∨ ∃ fence, Fenced receiptId fence l l') ∧
      ∀ fence, x = some fence → fence ∈ l'.fences ∧ ∃ m ∈ l.markers, m.receiptId = receiptId ∧
        m.markerId = fence.markerId := by
  obtain ⟨_, -, h⟩ := bind_ok h
  split at h
  · cases h
    exact ⟨.inl rfl, fun fence hf => nomatch hf⟩
  · next marker hm =>
    obtain ⟨hmem, hmr⟩ := find_rows_some hm
    simp only [decide_eq_true_eq] at hmr
    split at h
    · next fence hf =>
      obtain ⟨_, -, h⟩ := bind_ok h
      cases h
      obtain ⟨hfmem, hfm⟩ := find_rows_some hf
      simp only [decide_eq_true_eq] at hfm
      refine ⟨.inl rfl, fun f hx => ?_⟩
      cases hx
      exact ⟨hfmem, marker, hmem, hmr, hfm.symm⟩
    · next hf =>
      obtain ⟨fences, hins, h⟩ := bind_ok h
      obtain ⟨_, -, h⟩ := bind_ok h
      cases h
      have hins := inserted_ok hins
      have hnew : ∀ f ∈ l.fences, f.markerId ≠ marker.markerId := by
        intro f hfm
        have := List.find?_eq_none.mp hf f hfm
        simpa using this
      constructor
      · exact .inr ⟨_, { marker := ⟨marker, hmem, hmr, rfl⟩, receipt := rfl, fence_new := hnew, fences := hins,
                         frame := rfl }⟩
      · intro f hx
        cases hx
        exact ⟨(Table.mem_insert? hins).mpr (.inr rfl), marker, hmem, hmr, rfl⟩

/-! ## Cancellation -/

/-- A live order is canceled and its reservation released. -/
structure Canceled (order : PendingOrder) (code : String) (now : Instant) (l l' : Ledger) : Prop where
  order_mem : order ∈ l.orders
  live : order.status.terminal = false
  cancels : l.cancels.insert? ⟨nextCancelId l order.orderId, order.orderId, order.remainingQuantity, code⟩ =
    some l'.cancels
  frame : l' = { l with cancels := l'.cancels, orders := setCanceled order.orderId l,
                        reservations := releaseReservation order.orderId now l,
                        accounts := bumpRevision order.accountId l }

theorem cancelInTxn_ok (h : cancelInTxn orderId code now l = .ok (l', x)) :
    (l' = l ∧ ∃ order ∈ l.orders, order.orderId = orderId ∧ order.status.terminal = true) ∨
      ∃ order, order.orderId = orderId ∧ Canceled order code now l l' := by
  unfold cancelInTxn at h
  split at h
  · cases h
  · next order ho =>
    obtain ⟨hmem, hid⟩ := Table.find?_eq_some.mp ho
    split at h
    · next hterm =>
      cases h
      exact .inl ⟨rfl, order, hmem, hid, hterm⟩
    · next hlive =>
      obtain ⟨cancels, hc, h⟩ := bind_ok h
      cases h
      subst hid
      exact .inr ⟨order, rfl, hmem, by simpa using hlive, inserted_ok hc, rfl⟩

theorem cancelPendingOrder_ok (h : cancelPendingOrder orderId code now l = .ok (l', x)) : cancelInTxn orderId code now l = .ok (l', x) := by
  obtain ⟨_, -, h⟩ := bind_ok h
  obtain ⟨-, h⟩ := require_bind_ok h
  exact h

/-- A receipt is given up, after its live order was canceled. -/
theorem abandonReceipt_ok {x : Bool}
    (h : abandonReceipt receiptId code now l = .ok (l', x)) :
    l' = l ∨ ∃ m, (m = l ∨ ∃ order, order.receiptId = receiptId ∧ Canceled order code now l m) ∧
      l' = { m with receipts := setAbandoned receiptId now m } := by
  obtain ⟨_, -, h⟩ := bind_ok h
  obtain ⟨-, h⟩ := require_bind_ok h
  split at h
  · cases h
  · split at h
    · cases h
      exact .inl rfl
    · split at h
      · cases h
        exact .inr ⟨l, .inl rfl, rfl⟩
      · next order ho =>
        obtain ⟨c, hc, h⟩ := bind_ok h
        cases h
        obtain ⟨m, y⟩ := c
        obtain ⟨homem, hor⟩ := orderOfReceipt_some ho
        refine .inr ⟨m, ?_, rfl⟩
        rcases cancelInTxn_ok hc with ⟨hm, -⟩ | ⟨o, hid, hcan⟩
        · exact .inl hm
        · have hoo : o = order := Table.eq_of_key_eq hcan.order_mem homem hid
          exact .inr ⟨o, by rw [hoo, hor], hcan⟩

/-! ## Applying an outcome -/

/-- One fill is posted to the books of its order. -/
structure Posted (order : PendingOrder) (b : Books) (fill : Fill) (b' : Books) : Prop where
  side : fill.side = order.side
  quantity_pos : 0 < fill.quantity
  price_pos : 0 < fill.price
  fee_nonneg : 0 ≤ fill.feeJpy
  key_new : ∀ f ∈ b.fills, ¬ (f.orderId = order.orderId ∧ f.quoteRef = fill.quoteRef ∧ f.levelIndex = fill.levelIndex)
  fills : b.fills.insert? (fillRow order fill) = some b'.fills
  cash_nonneg : 0 ≤ b'.cash
  cash : b'.cash = match order.side with
    | .buy => b.cash - roundUp quantum (fill.quantity * fill.price + fill.feeJpy)
    | .sell => b.cash + max 0 (roundDown quantum (fill.quantity * fill.price - fill.feeJpy))
  position : b'.position = match order.side with
    | .buy => b.position + fill.quantity
    | .sell => b.position - fill.quantity
  position_nonneg : order.side = .sell → 0 ≤ b'.position

theorem insertFill_ok {fills t : Table Fill.fillId} {row : Fill} (h : insertFill fills row = .ok t) :
    (∀ f ∈ fills, ¬ (f.orderId = row.orderId ∧ f.quoteRef = row.quoteRef ∧ f.levelIndex = row.levelIndex)) ∧
      fills.insert? row = some t := by
  obtain ⟨_, -, h⟩ := bind_ok h
  obtain ⟨_, -, h⟩ := bind_ok h
  obtain ⟨_, -, h⟩ := bind_ok h
  obtain ⟨-, h⟩ := require_bind_ok h
  obtain ⟨hnew, h⟩ := require_bind_ok h
  exact ⟨hnew, inserted_ok h⟩

theorem applyFill_ok {fill : Fill} (h : applyFill order b fill = .ok b') : Posted order b fill b' := by
  obtain ⟨hscope, h⟩ := require_bind_ok h
  obtain ⟨q, hq, h⟩ := bind_ok h
  obtain ⟨p, hp, h⟩ := bind_ok h
  obtain ⟨fee, hfee, h⟩ := bind_ok h
  obtain ⟨rfl, -, hqpos⟩ := decPositive_ok hq
  obtain ⟨rfl, -, hppos⟩ := decPositive_ok hp
  obtain ⟨rfl, -, hfnn⟩ := dec_ok hfee
  split at h
  · next hside =>
    obtain ⟨cost, hcost, h⟩ := bind_ok h
    obtain ⟨hcash, h⟩ := require_bind_ok h
    obtain ⟨fills, hf, h⟩ := bind_ok h
    cases h
    obtain ⟨hnew, hins⟩ := insertFill_ok hf
    have hbuy : order.side = .buy := by rw [← hscope.2.1, hside]
    exact { side := hscope.2.1, quantity_pos := hqpos, price_pos := hppos, fee_nonneg := hfnn, key_new := hnew,
            fills := hins, cash_nonneg := hcash, cash := by rw [hbuy, money_charge hcost],
            position := by rw [hbuy], position_nonneg := fun hs => by rw [hbuy] at hs; cases hs }
  · next hside =>
    obtain ⟨hpos, h⟩ := require_bind_ok h
    obtain ⟨credit, hcredit, h⟩ := bind_ok h
    obtain ⟨hcash, h⟩ := require_bind_ok h
    obtain ⟨fills, hf, h⟩ := bind_ok h
    cases h
    obtain ⟨hnew, hins⟩ := insertFill_ok hf
    have hsell : order.side = .sell := by rw [← hscope.2.1, hside]
    exact { side := hscope.2.1, quantity_pos := hqpos, price_pos := hppos, fee_nonneg := hfnn, key_new := hnew,
            fills := hins, cash_nonneg := hcash, cash := by rw [hsell, money_credit hcredit],
            position := by rw [hsell], position_nonneg := fun _ => hpos }

/-- The fills of an outcome posted one after another. -/
inductive PostedAll (order : PendingOrder) : Books → List Fill → Books → Prop
  | nil (b : Books) : PostedAll order b [] b
  | cons {b b' b'' : Books} {fill : Fill} {fills : List Fill} (h : Posted order b fill b')
      (hs : PostedAll order b' fills b'') : PostedAll order b (fill :: fills) b''

theorem applyFills_ok {fills : List Fill} (h : applyFills order b fills = .ok b') :
    PostedAll order b fills b' := by
  induction fills generalizing b with
  | nil =>
    cases h
    exact .nil _
  | cons fill fills ih =>
    obtain ⟨c, hc, h⟩ := bind_ok h
    exact .cons (applyFill_ok hc) (ih h)

/-- The cancel event of an outcome, if there is one, with the quantity it adds. -/
theorem applyCancel_ok {o : ExecutionOutcome} {c : Table CancelRow.cancelId × ℚ} (h : applyCancel l o = .ok c) :
    c.2 = max 0 o.canceledQuantity ∧ (c = (l.cancels, 0) ∨
      0 < c.2 ∧ ∃ code, l.cancels.insert? ⟨nextCancelId l o.orderId, o.orderId, c.2, code⟩ = some c.1) := by
  unfold applyCancel at h
  split at h
  · next hpos =>
    obtain ⟨-, h⟩ := require_bind_ok h
    obtain ⟨q, hq, h⟩ := bind_ok h
    obtain ⟨cancels, hc, h⟩ := bind_ok h
    cases h
    obtain ⟨rfl, -, -⟩ := dec_ok hq
    exact ⟨(max_eq_right hpos.le).symm, .inr ⟨hpos, _, inserted_ok hc⟩⟩
  · next hpos =>
    cases h
    exact ⟨(max_eq_left (not_lt.mp hpos)).symm, .inl rfl⟩

/-- An outcome is applied to a live order of a committed receipt. -/
structure Applied (sumText : List ℚ → ℚ) (o : ExecutionOutcome) (now : Instant) (order : PendingOrder)
    (account : AccountRow) (b : Books) (added : ℚ) (l l' : Ledger) : Prop where
  order_mem : order ∈ l.orders
  order_id : order.orderId = o.orderId
  live : order.status.terminal = false
  marker : ∃ m ∈ l.markers, m.receiptId = order.receiptId
  account_mem : account ∈ l.accounts
  account_id : account.accountId = order.accountId
  posted : PostedAll order (openBooks l order account) (newFills l o) b
  added_eq : added = max 0 o.canceledQuantity
  cancel : (l'.cancels, added) = (l.cancels, 0) ∨
    0 < added ∧ ∃ code, l.cancels.insert? ⟨nextCancelId l o.orderId, o.orderId, added, code⟩ = some l'.cancels
  balance : order.requestedQuantity = order.filledQuantity + ((newFills l o).map Fill.quantity).sum
    + o.remainingQuantity + (storedCanceled sumText l o.orderId + added)
  remaining_nonneg : 0 ≤ o.remainingQuantity
  frame : l' = { l with
    fills := b.fills
    cancels := l'.cancels
    orders := setExecuted o (order.filledQuantity + ((newFills l o).map Fill.quantity).sum) l
    reservations := if o.status.terminal then releaseReservation o.orderId now l else l.reservations
    positions := setPosition order b l
    accounts := setCash order.accountId b.cash l }

theorem applyExecution_ok {sumText : List ℚ → ℚ} {o : ExecutionOutcome}
    (h : applyExecution sumText o now l = .ok (l', x)) :
    (l' = l ∧ newFills l o = [] ∧ ∃ order ∈ l.orders, order.orderId = o.orderId ∧ order.status.terminal = true) ∨
      ∃ order account b added, Applied sumText o now order account b added l l' := by
  obtain ⟨_, -, h⟩ := bind_ok h
  split at h
  · cases h
  · next order ho =>
    obtain ⟨hmem, hid⟩ := Table.find?_eq_some.mp ho
    split at h
    · next hterm =>
      obtain ⟨hnone, h⟩ := require_bind_ok h
      cases h
      exact .inl ⟨rfl, hnone, order, hmem, hid, hterm⟩
    · next hlive =>
      obtain ⟨hmarker, h⟩ := require_bind_ok h
      split at h
      · cases h
      · next account hacc =>
        obtain ⟨b, hb, h⟩ := bind_ok h
        obtain ⟨cancel, hcancel, h⟩ := bind_ok h
        obtain ⟨hbalance, h⟩ := require_bind_ok h
        obtain ⟨rem, hrem, h⟩ := bind_ok h
        cases h
        obtain ⟨haccmem, haccid⟩ := Table.find?_eq_some.mp hacc
        obtain ⟨marker, hmmem, hmid⟩ := List.any_eq_true.mp hmarker
        refine .inr ⟨order, account, b, cancel.2, ?_⟩
        exact { order_mem := hmem, order_id := hid, live := by simpa using hlive,
                marker := ⟨marker, hmmem, by simpa using hmid⟩, account_mem := haccmem, account_id := haccid,
                posted := applyFills_ok hb, added_eq := (applyCancel_ok hcancel).1,
                cancel := (applyCancel_ok hcancel).2, balance := hbalance, remaining_nonneg := (dec_ok hrem).2.2, frame := rfl }

/-! ## Accounts and valuations -/

structure Opened (accountId : String) (cash : ℚ) (l l' : Ledger) : Prop where
  cash_pos : 0 < cash
  cash_dec : isDec cash
  accounts : ∃ row : AccountRow, row.accountId = accountId ∧ row.cash = cash ∧ row.initialCash = cash ∧
    l.accounts.insert? row = some l'.accounts
  frame : l' = { l with accounts := l'.accounts }

theorem createAccount_ok {runId scenarioId quoteCurrency : String} {cash : ℚ}
    (h : createAccount accountId runId scenarioId cash quoteCurrency l = .ok (l', u)) :
    l' = l ∨ Opened accountId cash l l' := by
  obtain ⟨_, -, h⟩ := bind_ok h
  obtain ⟨_, -, h⟩ := bind_ok h
  obtain ⟨_, -, h⟩ := bind_ok h
  obtain ⟨c, hc, h⟩ := bind_ok h
  obtain ⟨_, -, h⟩ := bind_ok h
  obtain ⟨hcash, hdec, hpos⟩ := decPositive_ok hc
  cases hrow : l.accounts.find? accountId with
  | some row =>
    rw [hrow] at h
    obtain ⟨-, h⟩ := require_bind_ok h
    cases h
    exact .inl rfl
  | none =>
    rw [hrow] at h
    obtain ⟨accounts, ha, h⟩ := bind_ok h
    cases h
    exact .inr ⟨hpos, hdec, ⟨_, rfl, hcash, hcash, inserted_ok ha⟩, rfl⟩

theorem recordValuation_ok {valuationId : String} {asOf : Instant} {v e : ℚ}
    (h : recordValuation accountId valuationId asOf v e l = .ok (l', u)) :
    ∃ valuations, l' = { l with valuations := valuations } := by
  obtain ⟨_, -, h⟩ := bind_ok h
  obtain ⟨_, -, h⟩ := bind_ok h
  obtain ⟨_, -, h⟩ := bind_ok h
  obtain ⟨-, h⟩ := require_bind_ok h
  obtain ⟨valuations, -, h⟩ := bind_ok h
  cases h
  exact ⟨valuations, rfl⟩

end Docich.News
