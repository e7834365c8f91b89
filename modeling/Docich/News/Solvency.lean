import Docich.News.Cash
import Docich.News.Depth

/-!
# Solvency

The cash of an account covers its unreleased cash reservations, and each position covers the unreleased reservations
of its asset (`Solvent`). The second half holds in every run. The first needs that an accepted buy reserves no more
than is free (`ReservesFree`), and that the fills of a buy cost no more than what the other orders leave (`PaysFree`):
a size is computed with the unrounded price and one fee for the whole order, and what is reserved and what is charged
is rounded to ticks and whole fees, level by level.
-/

namespace Docich.News

open Durable List Table

variable {sumText : List ℚ → ℚ} {l l' : Ledger}

/-! ## What is held and what is reserved -/

/-- The quantity an account holds of an asset. -/
def heldOf (l : Ledger) (accountId asset : String) : ℚ :=
  ((l.positions.find? (accountId, asset)).map PositionRow.quantity).getD 0

structure Solvent (l : Ledger) : Prop where
  cash : ∀ a ∈ l.accounts, cashReserved l a.accountId ≤ a.cash
  inventory : ∀ accountId asset, inventoryReserved l accountId asset ≤ heldOf l accountId asset

theorem stateOf_held (l : Ledger) (row : AccountRow) (asset : String) :
    (stateOf l row).held asset = heldOf l row.accountId asset := by
  unfold AccountState.held AccountState.position heldOf stateOf Table.find? PositionRow.key
  rw [List.find?_filter]
  simp only [Prod.mk.injEq, Bool.decide_and, Bool.decide_eq_true]

/-- A reservation is for an order, of its account and asset: cash for a buy, inventory for a sell. -/
structure For (o : PendingOrder) (r : ReservationRow) : Prop where
  quantity_nonneg : 0 ≤ r.quantity
  amount_nonneg : 0 ≤ r.amount
  order : r.orderId = o.orderId
  account : r.accountId = o.accountId
  asset : r.asset = o.asset
  kind : r.kind = .cash ↔ o.side = .buy

def Matched (l : Ledger) : Prop := ∀ r ∈ l.reservations, ∃ o ∈ l.orders, For o r

theorem Matched.cashOf_nonneg (h : Matched l) {r : ReservationRow} (hr : r ∈ l.reservations) (accountId : String) :
    0 ≤ r.cashOf accountId := by
  obtain ⟨o, -, ho⟩ := h r hr
  unfold ReservationRow.cashOf
  split
  · exact ho.amount_nonneg
  · exact le_rfl

theorem Matched.inventoryOf_nonneg (h : Matched l) {r : ReservationRow} (hr : r ∈ l.reservations)
    (accountId asset : String) : 0 ≤ r.inventoryOf accountId asset := by
  obtain ⟨o, -, ho⟩ := h r hr
  unfold ReservationRow.inventoryOf
  split
  · exact ho.quantity_nonneg
  · exact le_rfl

variable {order : PendingOrder} {now : Instant} {account : AccountRow} {orderId : String}
    {quantity : ℚ} {q : DecisionRequest} {r : ReceiptDraft} {s : Ledger} {o : OrderDraft}
    {use : EventUseDraft}

theorem own_reservation (hb : Booked l) (hm : Matched l) (ho : order ∈ l.orders)
    (hlive : order.status.terminal = false) : ∃ own ∈ l.reservations,
      reservationForOrder l order.orderId = some own ∧ For order own ∧ own.releasedAt = none := by
  obtain ⟨own, hown, -, hid, -, hrel⟩ := hb.reserved order ho
  obtain ⟨o, hom, hfor⟩ := hm own hown
  have hoo : o = order := eq_of_key_eq hom ho (hfor.order.symm.trans hid)
  subst hoo
  refine ⟨own, hown, ?_, hfor, hrel.mpr hlive⟩
  cases hf : reservationForOrder l o.orderId with
  | none =>
    have hnone := List.find?_eq_none.mp hf own hown
    simp [hid] at hnone
  | some r =>
    obtain ⟨hr, hro⟩ := find_rows_some hf
    simp only [decide_eq_true_eq] at hro
    rw [hb.reservation_once r hr own hown (hro.trans hid.symm)]

/-! ## Sums after a release -/

section Release

variable {orderId : String} {now : Instant} {g : ReservationRow → ℚ}

/-- A sum over unreleased reservations loses the order's part when its reservation is released. -/
theorem sum_release (hg : ∀ r : ReservationRow, r.releasedAt ≠ none → g r = 0) :
    (releaseReservation orderId now l).sum g = l.reservations.sum fun r => if r.orderId = orderId then 0 else g r := by
  unfold releaseReservation
  rw [sum_update]
  apply sum_congr
  intro r _
  by_cases hid : r.orderId = orderId
  · rw [if_pos hid]
    split
    · apply hg
      simp
    · next hsel =>
      apply hg
      intro hnone
      apply hsel
      simp [hid, hnone]
  · rw [if_neg hid, if_neg]
    simp [hid]

theorem sum_others (hb : Booked l) {own : ReservationRow} (hown : own ∈ l.reservations) (hid : own.orderId = orderId) :
    (l.reservations.sum fun r => if r.orderId = orderId then 0 else g r) = l.reservations.sum g - g own := by
  have hdiff : (l.reservations.sum fun r => g r - if r.orderId = orderId then 0 else g r) = g own := by
    rw [sum_single hown]
    · rw [if_pos hid, sub_zero]
    · intro r hr hne
      have hro : r.orderId ≠ orderId := fun he => hne (hb.reservation_once r hr own hown (he.trans hid.symm))
      rw [if_neg hro, sub_self]
  rw [sum_sub] at hdiff
  linarith

end Release

theorem cashOf_released (accountId : String) (r : ReservationRow) (h : r.releasedAt ≠ none) :
    r.cashOf accountId = 0 := by
  unfold ReservationRow.cashOf ReservationRow.active
  simp [h]

theorem inventoryOf_released (accountId asset : String) (r : ReservationRow) (h : r.releasedAt ≠ none) :
    r.inventoryOf accountId asset = 0 := by
  unfold ReservationRow.inventoryOf ReservationRow.active
  simp [h]

/-- The cash reserved for the other orders of the order's account. -/
def reservedForOthers (l : Ledger) (order : PendingOrder) : ℚ :=
  l.reservations.sum fun r => if r.orderId = order.orderId then 0 else r.cashOf order.accountId

/-- The reservations after a change that may release the order's. -/
def MayRelease (l : Ledger) (orderId : String) (now : Instant) (t : Table ReservationRow.reservationId) : Prop :=
  t = releaseReservation orderId now l ∨ t = l.reservations

section MayRelease

variable {t : Table ReservationRow.reservationId} {orderId : String} {now : Instant}

theorem MayRelease.sum_le (h : MayRelease l orderId now t) {g : ReservationRow → ℚ}
    (hg : ∀ r : ReservationRow, r.releasedAt ≠ none → g r = 0) (hnn : ∀ r ∈ l.reservations, 0 ≤ g r) :
    t.sum g ≤ l.reservations.sum g := by
  rcases h with rfl | rfl
  · rw [sum_release hg]
    apply Table.sum_le_sum
    intro r hr
    split
    · exact hnn r hr
    · exact le_rfl
  · exact le_rfl

theorem MayRelease.row (h : MayRelease l orderId now t) {x : ReservationRow} (hx : x ∈ t) :
    ∃ r ∈ l.reservations, ∃ releasedAt, x = { r with releasedAt := releasedAt } := by
  rcases h with rfl | rfl
  · obtain ⟨r, hr, hxr⟩ := mem_release.mp hx
    obtain ⟨u, hu, -, -⟩ := release_row orderId now r
    exact ⟨r, hr, u, hxr.trans hu⟩
  · exact ⟨x, hx, x.releasedAt, rfl⟩

end MayRelease

/-! ## Changes that keep the account solvent -/

/-- Orders stay, with their identity and their size. -/
theorem Change.order_stays (h : Change sumText l l') {o : PendingOrder} (ho : o ∈ l.orders) :
    ∃ x ∈ l'.orders, x.orderId = o.orderId ∧ x.accountId = o.accountId ∧ x.asset = o.asset ∧ x.side = o.side ∧
      x.requestedQuantity = o.requestedQuantity := by
  cases h with
  | opened h => exact ⟨o, by rw [h.frame]; exact ho, rfl, rfl, rfl, rfl, rfl⟩
  | valued h => exact ⟨o, by rw [h]; exact ho, rfl, rfl, rfl, rfl, rfl⟩
  | begun h => exact ⟨o, h.mem_orders.mpr (.inl ho), rfl, rfl, rfl, rfl, rfl⟩
  | decided h => exact ⟨o, by rw [h.frame]; exact ho, rfl, rfl, rfl, rfl, rfl⟩
  | committed h =>
    obtain ⟨x, hx, hxo⟩ := h.mem_orders ho
    exact ⟨x, hx, by rw [hxo], by rw [hxo], by rw [hxo], by rw [hxo], by rw [hxo]⟩
  | fenced h => exact ⟨o, by rw [h.frame]; exact ho, rfl, rfl, rfl, rfl, rfl⟩
  | canceled h =>
    refine ⟨_, by rw [h.orders]; exact mem_setCanceled.mpr ⟨o, ho, rfl⟩, ?_⟩
    split
    · exact ⟨rfl, rfl, rfl, rfl, rfl⟩
    · exact ⟨rfl, rfl, rfl, rfl, rfl⟩
  | abandoned h => exact ⟨o, by rw [h]; exact ho, rfl, rfl, rfl, rfl, rfl⟩
  | @applied out now order account b added h =>
    by_cases hid : o.orderId = order.orderId
    · have heq : o = order := eq_of_key_eq ho h.order_mem hid
      exact ⟨_, h.becomes.mpr (.inr rfl), by rw [heq], by rw [heq], by rw [heq], by rw [heq], by rw [heq]⟩
    · exact ⟨o, h.becomes.mpr (.inl ⟨ho, hid⟩), rfl, rfl, rfl, rfl, rfl⟩

/-- A quiet change releases at most one order's reservation. -/
theorem Quiet.mayRelease (h : Quiet l l') : ∃ orderId now, MayRelease l orderId now l'.reservations := by
  cases h with
  | opened h => exact ⟨"", 0, .inr (by rw [h.frame])⟩
  | valued h => exact ⟨"", 0, .inr (by rw [h])⟩
  | decided h => exact ⟨"", 0, .inr (by rw [h.frame])⟩
  | committed h => exact ⟨"", 0, .inr h.reservations⟩
  | fenced h => exact ⟨"", 0, .inr (by rw [h.frame])⟩
  | @canceled order code now h => exact ⟨order.orderId, now, .inl h.reservations⟩
  | abandoned h => exact ⟨"", 0, .inr (by rw [h])⟩

theorem Applied.mayRelease {o : ExecutionOutcome}
    {b : Books} {added : ℚ} (h : Applied sumText o now order account b added l l') :
    MayRelease l order.orderId now l'.reservations := by
  rw [h.reservations, h.order_id]
  split
  · exact .inl rfl
  · exact .inr rfl

theorem Quiet.positions (h : Quiet l l') : l'.positions = l.positions := by
  cases h with
  | opened h => rw [h.frame]
  | valued h => rw [h]
  | decided h => rw [h.frame]
  | committed h => rw [h.frame]
  | fenced h => rw [h.frame]
  | canceled h => rw [h.frame]
  | abandoned h => rw [h]

theorem Matched.of_mayRelease (hm : Matched l) (hc : Change sumText l l')
    (hr : MayRelease l orderId now l'.reservations) : Matched l' := by
  intro x hx
  obtain ⟨r, hrm, u, rfl⟩ := hr.row hx
  obtain ⟨o, ho, hfor⟩ := hm r hrm
  obtain ⟨y, hy, h1, h2, h3, h4, -⟩ := hc.order_stays ho
  exact ⟨y, hy, hfor.quantity_nonneg, hfor.amount_nonneg, hfor.order.trans h1.symm, hfor.account.trans h2.symm,
    hfor.asset.trans h3.symm, by rw [h4]; exact hfor.kind⟩

variable {reservation : ReservationDraft} {a : Attempt}

theorem evaluate_reservation {account : AccountState} {policy : RiskPolicy} {q : Candidate} {notional : ℚ}
    (h : evaluate account policy q = .ok (.accepted quantity reservation notional)) :
    reservation.asset = q.asset ∧ (reservation.kind = .cash ↔ q.side = .buy) := by
  obtain ⟨-, -, -, -, rfl⟩ := evaluate_accepted h
  unfold reservationFor
  cases hs : q.side <;> simp

theorem Accepted.matched (h : Accepted a q account r quantity reservation l l') (hm : Matched l) : Matched l' := by
  intro x hx
  rcases h.begun.mem_reservations.mp hx with hx | rfl
  · obtain ⟨o, ho, hfor⟩ := hm x hx
    exact ⟨o, h.begun.mem_orders.mpr (.inl ho), hfor⟩
  · obtain ⟨used, notional, hd⟩ := h.decision
    obtain ⟨hasset, hkind⟩ := evaluate_reservation hd
    refine ⟨_, h.begun.mem_orders.mpr (.inr rfl), ?_⟩
    constructor
    · exact h.begun.quantity_nonneg
    · exact h.begun.amount_nonneg
    · rfl
    · rfl
    · exact hasset
    · exact hkind

theorem Move.matched (h : Move sumText a s l l') (hm : Matched l) : Matched l' := by
  cases h with
  | quiet h =>
    obtain ⟨orderId, now, hr⟩ := h.mayRelease
    have hchange : Change sumText l l' := h.change
    exact hm.of_mayRelease hchange hr
  | accepted _ h => exact h.matched hm
  | executed _ _ h => exact hm.of_mayRelease (.applied h.applied) h.applied.mayRelease

/-- Less is reserved, and nothing less is held. -/
theorem Solvent.of_le (hl : Solvent l) (hm : Matched l)
    (hr : MayRelease l orderId now l'.reservations)
    (ha : ∀ x ∈ l'.accounts, cashReserved l x.accountId ≤ x.cash)
    (hp : ∀ accountId asset, heldOf l accountId asset ≤ heldOf l' accountId asset) : Solvent l' := by
  constructor
  · intro x hx
    have hle := hr.sum_le (cashOf_released x.accountId) (fun r h => hm.cashOf_nonneg h x.accountId)
    exact le_trans hle (ha x hx)
  · intro accountId asset
    have hle := hr.sum_le (inventoryOf_released accountId asset) (fun r h => hm.inventoryOf_nonneg h accountId asset)
    exact le_trans hle (le_trans (hl.inventory accountId asset) (hp accountId asset))

/-- A new account has no reservations: reservations are for orders, and orders for accounts. -/
theorem cashReserved_new (hm : Matched l) (ho : Owned l) {accountId : String}
    (hnew : ∀ a ∈ l.accounts, a.accountId ≠ accountId) : cashReserved l accountId = 0 := by
  apply Table.sum_eq_zero
  intro r hr
  obtain ⟨o, hom, hfor⟩ := hm r hr
  obtain ⟨a, ha, hao⟩ := ho o hom
  have hne : r.accountId ≠ accountId := by
    rw [hfor.account, ← hao]
    exact hnew a ha
  unfold ReservationRow.cashOf ReservationRow.active
  simp [hne]

theorem Quiet.solvent (h : Quiet l l') (hm : Matched l) (ho : Owned l) (hl : Solvent l) : Solvent l' := by
  obtain ⟨orderId, now, hr⟩ := h.mayRelease
  have hheld : ∀ accountId asset, heldOf l accountId asset ≤ heldOf l' accountId asset := by
    intro accountId asset
    unfold heldOf
    rw [h.positions]
  apply hl.of_le hm hr ?_ hheld
  intro x hx
  cases h with
  | opened h =>
    obtain ⟨row, hid, hcash, -, hins⟩ := h.accounts
    rcases (Table.mem_insert? hins).mp hx with hx | rfl
    · exact hl.cash x hx
    · rw [cashReserved_new hm ho (Table.insert?_eq_some hins).2, hcash]
      exact h.cash_pos.le
  | valued h => exact hl.cash x (by rw [h] at hx; exact hx)
  | decided h => exact hl.cash x (by rw [h.frame] at hx; exact hx)
  | committed h => exact hl.cash x (by rw [h.frame] at hx; exact hx)
  | fenced h => exact hl.cash x (by rw [h.frame] at hx; exact hx)
  | canceled h =>
    obtain ⟨a, ha, rfl⟩ := h.account_becomes.mp hx
    split
    · exact hl.cash a ha
    · exact hl.cash a ha
  | abandoned h => exact hl.cash x (by rw [h] at hx; exact hx)

/-! ## Acceptance -/

/-- A buy that the attempt would accept reserves no more than the account has free. -/
def ReservesFree (s : Ledger) (a : Attempt) : Prop :=
  ∀ q account used quantity reservation notional, a.call.request = some q → account ∈ s.accounts →
    account.accountId = q.accountId → q.side = .buy →
    evaluate (stateOf s account) a.manager.riskPolicy (candidateOf q (lossState q s) used) =
      .ok (.accepted quantity reservation notional) →
    reservationCost q.referencePrice quantity q.constraints ≤ account.cash - cashReserved s account.accountId

theorem receiptDraft_account {m : Manager} {status : ReceiptStatus} {codes : List String}
    (h : receiptDraft m q status codes = .ok r) : r.accountId = q.accountId := by
  obtain ⟨-, h⟩ := require_bind_ok h
  cases h
  rfl

theorem Begun.cashReserved (h : Begun r o reservation use l l') (accountId : String) :
    cashReserved l' accountId = News.cashReserved l accountId + (reservationOf r o reservation).cashOf accountId :=
  sum_insert h.reservations

theorem Begun.inventoryReserved (h : Begun r o reservation use l l') (accountId asset : String) :
    inventoryReserved l' accountId asset =
      News.inventoryReserved l accountId asset + (reservationOf r o reservation).inventoryOf accountId asset :=
  sum_insert h.reservations

/-- The reservation that an acceptance stores. -/
abbrev acceptedRow (r : ReceiptDraft) (q : DecisionRequest) (quantity : ℚ) (reservation : ReservationDraft) :
    ReservationRow :=
  reservationOf r (orderDraftOf q quantity) (reservationDraftOf q reservation)

section Accepted

variable {a : Attempt} {q : DecisionRequest} {account : AccountRow} {r : ReceiptDraft} {quantity : ℚ}
  {reservation : ReservationDraft}

variable (h : Accepted a q account r quantity reservation l l')

include h

theorem Accepted.row_account :
    (acceptedRow r q quantity reservation).accountId = account.accountId := by
  rw [h.account_id]
  exact receiptDraft_account h.draft

theorem Accepted.row_active (accountId : String) :
    (acceptedRow r q quantity reservation).active accountId = true ↔ account.accountId = accountId := by
  unfold ReservationRow.active
  rw [h.row_account]
  simp [reservationOf]

theorem Accepted.row_asset :
    (acceptedRow r q quantity reservation).asset = q.asset := by
  obtain ⟨used, notional, hd⟩ := h.decision
  exact (evaluate_reservation hd).1

theorem Accepted.row_kind :
    (acceptedRow r q quantity reservation).kind = .cash ↔ q.side = .buy := by
  obtain ⟨used, notional, hd⟩ := h.decision
  exact (evaluate_reservation hd).2

theorem Accepted.row_amount (hs : q.side = .buy) :
    (acceptedRow r q quantity reservation).amount = reservationCost q.referencePrice quantity q.constraints := by
  obtain ⟨used, notional, hd⟩ := h.decision
  obtain ⟨-, -, -, -, rfl⟩ := evaluate_accepted hd
  change (reservationFor q.side q.asset q.referencePrice quantity q.constraints).amount = _
  rw [hs]
  rfl

theorem Accepted.row_quantity (hs : q.side = .sell) :
    (acceptedRow r q quantity reservation).quantity = quantity := by
  obtain ⟨used, notional, hd⟩ := h.decision
  obtain ⟨-, -, -, -, rfl⟩ := evaluate_accepted hd
  change (reservationFor q.side q.asset q.referencePrice quantity q.constraints).quantity = _
  rw [hs]
  rfl

theorem Accepted.positions : l'.positions = l.positions := by
  rw [h.begun.frame]

/-- A sell is sized within what is not reserved yet. -/
theorem Accepted.sell_le (hs : q.side = .sell) :
    quantity ≤ heldOf l account.accountId q.asset - inventoryReserved l account.accountId q.asset := by
  obtain ⟨used, notional, hd⟩ := h.decision
  obtain ⟨-, -, hquantity, hsized, -⟩ := evaluate_accepted hd
  have hpos := hsized.quantity_pos
  rw [hquantity] at hpos
  have hle := sizedQuantity_le hpos
  rw [← hquantity] at hle
  have hroom : room (stateOf l account) .sell q.asset q.referencePrice q.constraints a.manager.riskPolicy =
      heldOf l account.accountId q.asset - inventoryReserved l account.accountId q.asset := by
    rw [← stateOf_held]
    rfl
  rw [← hroom, ← hs]
  exact hle

theorem Accepted.solvent (hfree : ReservesFree l a)
    (hl : Solvent l) : Solvent l' := by
  constructor
  · intro x hx
    have hx : x ∈ l.accounts := by rw [h.begun.frame] at hx; exact hx
    have hold := hl.cash x hx
    rw [h.begun.cashReserved]
    unfold ReservationRow.cashOf
    split
    · next hsel =>
      obtain ⟨hactive, hkind⟩ := hsel
      have hbuy := h.row_kind.mp hkind
      have hxa : x = account :=
        eq_of_key_eq hx h.account_mem ((h.row_active x.accountId).mp hactive).symm
      obtain ⟨used, notional, hd⟩ := h.decision
      have hamount := hfree q account used quantity reservation notional h.called h.account_mem h.account_id hbuy hd
      rw [h.row_amount hbuy, hxa]
      linarith
    · linarith
  · intro accountId asset
    have hold := hl.inventory accountId asset
    have hheld : heldOf l' accountId asset = heldOf l accountId asset := by
      unfold heldOf
      rw [h.positions]
    rw [hheld, h.begun.inventoryReserved]
    unfold ReservationRow.inventoryOf
    split
    · next hsel =>
      obtain ⟨hactive, hkind, hasset⟩ := hsel
      have hsell : q.side = .sell := by
        cases hs : q.side with
        | buy =>
          have hcash := h.row_kind.mpr hs
          rw [hkind] at hcash
          cases hcash
        | sell => rfl
      have hle := h.sell_le hsell
      rw [(h.row_active accountId).mp hactive, h.row_asset.symm.trans hasset] at hle
      rw [h.row_quantity hsell]
      linarith
    · linarith

end Accepted

/-! ## Execution -/

/-- What a buy of the takes is charged. -/
def takesCost (c : InstrumentConstraints) (takes : List LevelTake) : ℚ :=
  (takes.map fun t => reservationCost t.price t.quantity c).sum

/-- The fills of a buy cost no more than the other orders' reservations leave; or more than there is, and then they are
not stored. -/
def PaysFree (s : Ledger) (a : Attempt) : Prop :=
  ∀ (x : Execution) out f o, x.Reads a s → x.order.side = .buy → x.run a.manager s = .ok out → out.fills ≠ [] →
    x.FilledFrom a.manager s out f o →
    takesCost x.constraints (x.takes a.manager s o) ≤ x.account.cash - reservedForOthers s x.order ∨
      x.account.cash < takesCost x.constraints (x.takes a.manager s o)

/-- What a fill of a buy is charged. -/
def Fill.charge (f : Fill) : ℚ := roundUp quantum (f.quantity * f.price + f.feeJpy)

section PostedAll

variable {order : PendingOrder} {b b' : Books} {fills : List Fill}

variable (h : PostedAll order b fills b')

include h

theorem PostedAll.cash_buy (hs : order.side = .buy) :
    b'.cash = b.cash - (fills.map Fill.charge).sum := by
  induction h with
  | nil b => simp
  | cons h hs' ih =>
    have hcash := h.cash
    rw [hs] at hcash
    rw [ih, hcash, map_cons, sum_cons]
    unfold Fill.charge
    ring

theorem PostedAll.cash_sell (hs : order.side = .sell) : b.cash ≤ b'.cash := by
  induction h with
  | nil b => exact le_rfl
  | @cons _ _ _ fill _ h hs' ih =>
    have hcash := h.cash
    rw [hs] at hcash
    have hcredit := le_max_left 0 (roundDown quantum (fill.quantity * fill.price - fill.feeJpy))
    linarith

theorem PostedAll.position_buy_eq (hs : order.side = .buy) :
    b'.position = b.position + (fills.map Fill.quantity).sum := by
  induction h with
  | nil b => simp
  | cons h hs' ih =>
    have hpos := h.position
    rw [hs] at hpos
    rw [ih, hpos, map_cons, sum_cons]
    ring

theorem PostedAll.quantity_nonneg : 0 ≤ (fills.map Fill.quantity).sum := by
  induction h with
  | nil b => simp
  | cons h hs ih =>
    exact add_nonneg h.quantity_pos.le ih

theorem PostedAll.position_nonneg (hs : order.side = .sell) (hne : fills ≠ []) :
    0 ≤ b'.position := by
  induction h with
  | nil b => exact absurd rfl hne
  | @cons _ _ _ _ fills h hs' ih =>
    cases fills with
    | nil =>
      cases hs'
      exact h.position_nonneg hs
    | cons fill fills => exact ih (by simp)

theorem PostedAll.position_sell (hs : order.side = .sell) :
    b'.position = b.position - (fills.map Fill.quantity).sum := by
  induction h with
  | nil b => simp
  | cons h hs' ih =>
    have hpos := h.position
    rw [hs] at hpos
    rw [ih, hpos, map_cons, sum_cons]
    ring

theorem PostedAll.cash_nonneg (hne : fills ≠ []) : 0 ≤ b'.cash := by
  induction h with
  | nil b => exact absurd rfl hne
  | @cons _ _ _ _ fills h hs ih =>
    cases fills with
    | nil =>
      cases hs
      exact h.cash_nonneg
    | cons fill fills => exact ih (by simp)

end PostedAll

section Applied

variable {o : ExecutionOutcome} {now : Instant} {order : PendingOrder} {account : AccountRow} {b : Books} {added : ℚ}

/-- The order's position is what the fills made of it; the others stay. -/
theorem Applied.heldOf (h : Applied sumText o now order account b added l l') (accountId asset : String) :
    heldOf l' accountId asset =
      if (accountId, asset) = (order.accountId, order.asset) then b.position else News.heldOf l accountId asset := by
  have hpos : l'.positions = setPosition order b l := by rw [h.frame]
  unfold News.heldOf
  rw [hpos]
  unfold setPosition
  split
  · next hzero =>
    rw [Table.find?_delete]
    split
    · simp [hzero]
    · rfl
  · rw [Table.find?_upsert]
    have hkey : PositionRow.key ⟨order.accountId, order.asset, b.position, b.avgCost⟩ = (order.accountId, order.asset) :=
      rfl
    rw [hkey]
    split
    · rfl
    · rfl

end Applied

section Executed

variable {a : Attempt} {x : Execution} {out : ExecutionOutcome} {now : Instant} {b : Books} {added : ℚ}

variable (h : Executed sumText a x out now b added l l')

include h in
/-- The fills of an execution are all new. -/
theorem Executed.newFills_eq {f : Fence} {o : MarketObservation}
    (hfrom : x.FilledFrom a.manager l out f o) : ∃ isPartial,
      newFills l out = (x.takes a.manager l o).map (takeFill x.order o x.constraints x.now isPartial) := by
  obtain ⟨isPartial, hfills⟩ := hfrom.fills
  refine ⟨isPartial, ?_⟩
  have hid : out.orderId = x.order.orderId := (executePendingOrder_ok h.run).1
  have hall : newFills l out = out.fills := by
    unfold newFills
    rw [filter_eq_self]
    intro fill hfill
    rw [hfills] at hfill
    obtain ⟨take, htake, rfl⟩ := mem_map.mp hfill
    have hkey := (mem_filter.mp htake).2
    rw [hid]
    exact hkey
  rw [hall, hfills]
  rfl

theorem takesCost_fills {order : PendingOrder} (hs : order.side = .buy) (o : MarketObservation)
    (c : InstrumentConstraints) (now : Instant) (isPartial : Bool) (takes : List LevelTake) :
    ((takes.map (takeFill order o c now isPartial)).map Fill.charge).sum = takesCost c takes := by
  rw [map_map]
  congr 1
  apply map_congr_left
  intro t _
  simp only [Function.comp, Fill.charge, takeFill, reservationCost, ceilMoney, hs]

theorem quantity_fills (order : PendingOrder) (o : MarketObservation) (c : InstrumentConstraints) (now : Instant)
    (isPartial : Bool) (takes : List LevelTake) :
    ((takes.map (takeFill order o c now isPartial)).map Fill.quantity).sum = totalQuantity takes := by
  rw [map_map]
  rfl

/-- What a sell can afford is within the inventory of its risk snapshot. -/
theorem affordable_sell_le (levels : List LevelTake) (c : InstrumentConstraints) (risk : RiskSnapshot) :
    affordableQuantity .sell levels c risk ≤ max 0 risk.inventoryAvailable := by
  have hmax : maxAffordable .sell (worstPrice .sell c levels) c risk ≤ max 0 risk.inventoryAvailable := by
    unfold maxAffordable
    simp only
    split
    · exact le_max_left _ _
    · exact le_trans (min_le_left _ _) (le_max_right _ _)
  unfold affordableQuantity
  dsimp only
  split
  · split
    · exact le_trans (min_le_left _ _) hmax
    · exact hmax
  · exact hmax

/-- The takes of a sell are within what is held and not reserved for other orders. -/
theorem takes_sell_le (hs : x.order.side = .sell) (o : MarketObservation) {own : ReservationRow}
    (hown : reservationForOrder l x.order.orderId = some own) (hkind : own.kind ≠ .cash) :
    totalQuantity (x.takes a.manager l o) ≤
      max 0 (heldOf l x.account.accountId own.asset -
        (inventoryReserved l x.account.accountId own.asset - own.quantity)) := by
  unfold Execution.takes
  apply le_trans (plannedTakes_allocation _ _ _ _ _ _).total
  apply max_le (le_max_left _ _)
  apply le_trans targetQuantity_le
  apply max_le (le_max_left _ _)
  rw [hs]
  apply le_trans (affordable_sell_le _ _ _)
  apply max_le (le_max_left _ _)
  unfold headroomSnapshot
  rw [hown]
  dsimp only
  rw [if_neg hkind, stateOf_held]
  rfl

theorem fills_ne (h : newFills l out ≠ []) : out.fills ≠ [] := by
  intro he
  apply h
  unfold newFills
  rw [he]
  rfl

include h in
/-- An outcome with fills ends its order. -/
theorem Executed.reserved_filled (hfills : newFills l out ≠ []) :
    l'.reservations = releaseReservation x.order.orderId now l := by
  obtain ⟨f, o, hfrom⟩ := h.filledFrom (fills_ne hfills)
  rw [h.applied.reservations, if_pos hfrom.ends, h.applied.order_id]

/-- Without new fills the cash and the position are as they were. -/
theorem PostedAll.same {order : PendingOrder} {b b' : Books} (h : PostedAll order b [] b') : b' = b := by
  cases h
  rfl

include h

theorem Executed.cash_covers (hm : Matched l) (hl : Solvent l) (hpays : x.order.side = .buy → ∀ f o, out.fills ≠ [] → x.FilledFrom a.manager l out f o →
      takesCost x.constraints (x.takes a.manager l o) ≤ x.account.cash - reservedForOthers l x.order ∨
        x.account.cash < takesCost x.constraints (x.takes a.manager l o)) :
    cashReserved l' x.order.accountId ≤ b.cash := by
  have hold : cashReserved l x.order.accountId ≤ x.account.cash := by
    rw [← h.applied.account_id]
    exact hl.cash x.account h.applied.account_mem
  have hless : cashReserved l' x.order.accountId ≤ cashReserved l x.order.accountId :=
    h.applied.mayRelease.sum_le (cashOf_released _) (fun r hr => hm.cashOf_nonneg hr _)
  have hopen : (openBooks l x.order x.account).cash = x.account.cash := rfl
  by_cases hfills : newFills l out = []
  · have hposted := h.applied.posted
    rw [hfills] at hposted
    rw [hposted.same, hopen]
    exact le_trans hless hold
  · cases hside : x.order.side with
    | sell =>
      have hcash := h.applied.posted.cash_sell hside
      linarith
    | buy =>
      have hne := fills_ne hfills
      obtain ⟨f, o, hfrom⟩ := h.filledFrom hne
      obtain ⟨isPartial, hnew⟩ := h.newFills_eq hfrom
      have hcash := h.applied.posted.cash_buy hside
      rw [hopen, hnew, takesCost_fills hside] at hcash
      have hnonneg := h.applied.posted.cash_nonneg hfills
      -- The order's own reservation is released, so what stays reserved is the others' part.
      have hothers : cashReserved l' x.order.accountId = reservedForOthers l x.order := by
        unfold cashReserved reservedForOthers
        rw [h.reserved_filled hfills]
        exact sum_release (cashOf_released _)
      rcases hpays hside f o hne hfrom with hp | hp
      · linarith
      · linarith

theorem Executed.inventory_covers (hb : Booked l) (hm : Matched l)
    (hl : Solvent l) : inventoryReserved l' x.order.accountId x.order.asset ≤ b.position := by
  have hold := hl.inventory x.order.accountId x.order.asset
  have hless : inventoryReserved l' x.order.accountId x.order.asset ≤
      inventoryReserved l x.order.accountId x.order.asset :=
    h.applied.mayRelease.sum_le (inventoryOf_released _ _) (fun r hr => hm.inventoryOf_nonneg hr _ _)
  have hopen : (openBooks l x.order x.account).position = heldOf l x.order.accountId x.order.asset := rfl
  by_cases hfills : newFills l out = []
  · have hposted := h.applied.posted
    rw [hfills] at hposted
    rw [hposted.same, hopen]
    exact le_trans hless hold
  · cases hside : x.order.side with
    | buy =>
      have hpos := h.applied.posted.position_buy_eq hside
      have hq := h.applied.posted.quantity_nonneg
      linarith
    | sell =>
      have hne := fills_ne hfills
      obtain ⟨f, o, hfrom⟩ := h.filledFrom hne
      obtain ⟨isPartial, hnew⟩ := h.newFills_eq hfrom
      obtain ⟨own, hown, hfind, hfor, hrel⟩ := own_reservation hb hm h.applied.order_mem h.applied.live
      have hkind : own.kind ≠ .cash := by
        intro hk
        have hbuy := hfor.kind.mp hk
        rw [hside] at hbuy
        cases hbuy
      have hpos := h.applied.posted.position_sell hside
      rw [hopen, hnew, quantity_fills] at hpos
      have htakes := takes_sell_le (a := a) (l := l) hside o hfind hkind
      rw [h.applied.account_id, hfor.asset] at htakes
      have hothers : inventoryReserved l' x.order.accountId x.order.asset =
          inventoryReserved l x.order.accountId x.order.asset - own.quantity := by
        have hinv : own.inventoryOf x.order.accountId x.order.asset = own.quantity := by
          unfold ReservationRow.inventoryOf ReservationRow.active
          cases hk : own.kind with
          | cash => exact absurd hk hkind
          | inventory => simp [hfor.account, hfor.asset, hrel]
        have hsum := sum_others (g := fun r => r.inventoryOf x.order.accountId x.order.asset) hb hown hfor.order
        rw [hinv] at hsum
        unfold inventoryReserved
        rw [h.reserved_filled hfills, sum_release (inventoryOf_released _ _)]
        exact hsum
      have hroom : 0 ≤ heldOf l x.order.accountId x.order.asset -
          (inventoryReserved l x.order.accountId x.order.asset - own.quantity) := by
        linarith
      rw [max_eq_right hroom] at htakes
      linarith

theorem Executed.solvent (hb : Booked l) (hm : Matched l)
    (hl : Solvent l) (hpays : x.order.side = .buy → ∀ f o, out.fills ≠ [] → x.FilledFrom a.manager l out f o →
      takesCost x.constraints (x.takes a.manager l o) ≤ x.account.cash - reservedForOthers l x.order ∨
        x.account.cash < takesCost x.constraints (x.takes a.manager l o)) : Solvent l' := by
  have hcash := fun id => h.applied.mayRelease.sum_le (cashOf_released id) (fun r hr => hm.cashOf_nonneg hr id)
  have hinv := fun id asset => h.applied.mayRelease.sum_le (inventoryOf_released id asset)
    (fun r hr => hm.inventoryOf_nonneg hr id asset)
  constructor
  · intro y hy
    rcases h.applied.account_becomes.mp hy with ⟨hy, hne⟩ | rfl
    · exact le_trans (hcash y.accountId) (hl.cash y hy)
    · change cashReserved l' x.account.accountId ≤ b.cash
      rw [h.applied.account_id]
      exact h.cash_covers hm hl hpays
  · intro accountId asset
    rw [h.applied.heldOf]
    split
    · next hkey =>
      obtain ⟨rfl, rfl⟩ := Prod.mk.inj hkey
      exact h.inventory_covers hb hm hl
    · exact le_trans (hinv accountId asset) (hl.inventory accountId asset)

end Executed

/-! ## Runs -/

theorem Move.solvent (h : Move sumText a s l l') (hc : ReservesFree s a ∧ PaysFree s a)
    (hb : Booked l) (ho : Owned l) (hm : Matched l) (hl : Solvent l) : Solvent l' := by
  cases h with
  | quiet h => exact h.solvent hm ho hl
  | accepted hs h =>
    subst hs
    exact h.solvent hc.1 hl
  | @executed x out _ _ _ hs hr h =>
    apply h.solvent hb hm hl
    -- Executions read nothing of the fences.
    have hrun := h.run
    generalize l.fences = fences at hs
    subst hs
    intro hside f o hne hfrom
    exact hc.2 x out f o hr hside hrun hne hfrom

/-- **Solvency.** Every ledger that attempts leave behind is solvent, in whatever order they come and wherever the
process dies in them, as long as no buy is accepted or filled for more than what is free. -/
theorem solvent_of_left {attempts : List Attempt}
    (h : Left sumText (fun s a => ReservesFree s a ∧ PaysFree s a) .empty attempts l) : Solvent l := by
  have hall : Booked l ∧ Owned l ∧ Matched l ∧ Solvent l := by
    apply h.moved (P := fun m => Booked m ∧ Owned m ∧ Matched m ∧ Solvent m)
    · rintro a s m m' hc hmove ⟨hb, ho, hm, hs⟩
      exact ⟨hmove.change.booked hb, hmove.change.owned ho, hmove.matched hm, hmove.solvent hc hb ho hm hs⟩
    · refine ⟨booked_empty, ?_, ?_, ?_, ?_⟩
      · exact fun _ hx => absurd hx not_mem_empty
      · exact fun _ hx => absurd hx not_mem_empty
      · exact fun _ hx => absurd hx not_mem_empty
      · exact fun _ _ => le_rfl
  exact hall.2.2.2

/-- An attempt without a candidate accepts nothing. -/
theorem reservesFree_of_none (h : a.call.request = none) : ReservesFree s a := by
  intro q account used quantity reservation notional hq
  rw [h] at hq
  cases hq

theorem reservesFree_of_sizes (hq : a.call.request = some q)
    (h : ∀ account ∈ s.accounts.rows, reservationCost q.referencePrice (sizedQuantity (stateOf s account) q.side q.asset
      q.referencePrice q.constraints a.manager.riskPolicy q.quantityCap) q.constraints ≤
        account.cash - cashReserved s account.accountId) : ReservesFree s a := by
  intro q' account used quantity reservation notional hq' hm _ _ hd
  rw [hq] at hq'
  cases hq'
  obtain ⟨-, -, hquantity, -, -⟩ := evaluate_accepted hd
  rw [hquantity]
  exact h account hm

/-- The takes that an order would get, by the data that they depend on. -/
def orderTakes (m : Manager) (l : Ledger) (observations : List MarketObservation) (c : InstrumentConstraints)
    (order : PendingOrder) (account : AccountRow) (o : MarketObservation) : List LevelTake :=
  let levels := availableLevels o order.side c (liquidityTracker l order.accountId observations) order.accountId
  plannedTakes order o c levels
    (affordableQuantity order.side levels c
      (headroomSnapshot (stateOf l account) m.riskPolicy (refPricesOf observations)
        (reservationForOrder l order.orderId)))
    (filledKeys l order.orderId)

theorem paysFree_of_takes {observations : List MarketObservation}
    {c : InstrumentConstraints} {evidenceValid : Bool}
    (hcall : a.call = .processObservations orderId observations c now evidenceValid)
    (h : ∀ order ∈ s.orders.rows, ∀ account ∈ s.accounts.rows, ∀ o ∈ observations,
      takesCost c (orderTakes a.manager s observations c order account o) ≤
        account.cash - reservedForOthers s order) : PaysFree s a := by
  rintro x out f o hr - - - hfrom
  have hx := hr.called
  rw [hcall] at hx
  obtain ⟨-, hobs, hc, -, -⟩ := ManagerCall.processObservations.inj hx
  subst hobs hc
  exact .inl (h x.order hr.order_mem x.account hr.account_mem o hfrom.selected.mem)

theorem paysFree_of_candidate (h : a.call.request = some q) : PaysFree s a := by
  intro x out f o hr
  rw [hr.called] at h
  cases h

/-- One order for five units, filled from one level. The last attempt comes first. -/
def oneOrder : List Attempt :=
  let c := plainConstraints 1 0 pos_one nonneg_zero
  [plainAttempt (.processObservations "paper_order:receipt-1" [plainQuote] c 20 true),
   plainAttempt (.submitCandidate (plainRequest "receipt-1" "group-1" 100 (some 5) c) .accept []),
   plainAttempt (.createAccount "account-1" "run-1" "scenario-1" 10000 "JPY")]

theorem solvent_oneOrder : Solvent (ranAll sqliteSum oneOrder) := by
  have hmeets : MeetsAll sqliteSum (fun s a => ReservesFree s a ∧ PaysFree s a) oneOrder := by
    refine ⟨⟨?_, ?_⟩, ⟨?_, ?_⟩, ⟨?_, ?_⟩, trivial⟩
    · exact reservesFree_of_none rfl
    · apply paysFree_of_takes rfl
      decide +kernel
    · apply reservesFree_of_sizes rfl
      decide +kernel
    · exact paysFree_of_candidate rfl
    · exact reservesFree_of_none rfl
    · intro x out f o hr
      cases hr.called
  exact solvent_of_left (left_ranAll hmeets)

/-- A price of `1001` on a grid of `10`: a hundred units are sized at `1001`, and reserved at `1010`. -/
def overReserved : List Attempt :=
  let c := plainConstraints 10 0 pos_ten nonneg_zero
  [plainAttempt (.submitCandidate (plainRequest "receipt-1" "group-1" 1001 none c) .accept []),
   plainAttempt (.createAccount "account-1" "run-1" "scenario-1" 100100 "JPY")]

theorem overReserved_not_solvent : ¬ Solvent (ranAll sqliteSum overReserved) := by
  intro h
  have hne : ¬ ∀ a ∈ (ranAll sqliteSum overReserved).accounts.rows,
      cashReserved (ranAll sqliteSum overReserved) a.accountId ≤ a.cash := by
    decide +kernel
  exact hne h.cash

end Docich.News
