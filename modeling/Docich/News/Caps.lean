import Docich.News.Solvency

/-!
# The risk caps

With one policy and constant reference prices, no ledger of a run holds more assets than the policy allows, and as
long as every accepted buy leaves room for what its reservation adds to its notional (`LeavesRoom`), none exceeds the
gross cap or an asset's cap (`Capped`). The gate itself takes a buy at `quantity * refPrice`, other positions at their
cost, and does not count the pending buys of the same asset.

Between acceptances the exposure only falls: a fill turns a reservation into a position that is worth no more.
-/

namespace Docich.News

open Durable List Table Finset

variable {sumText : List ℚ → ℚ} {l l' : Ledger} {refs : String → ℚ} {policy : RiskPolicy}

/-! ## Exposure at reference prices -/

def PositionRow.valueAt (refs : String → ℚ) (accountId : String) (r : PositionRow) : ℚ :=
  if r.accountId = accountId then |r.quantity * refs r.asset| else 0

/-- The positions of an account at their reference prices. -/
def heldValue (refs : String → ℚ) (l : Ledger) (accountId : String) : ℚ :=
  l.positions.sum (PositionRow.valueAt refs accountId)

def ReservationRow.cashFor (r : ReservationRow) (accountId asset : String) : ℚ :=
  if r.asset = asset then r.cashOf accountId else 0

/-- The cash that pending buys of an asset reserve. -/
def cashReservedFor (l : Ledger) (accountId asset : String) : ℚ :=
  l.reservations.sum fun r => r.cashFor accountId asset

/-- The assets that an account holds or that a pending buy waits for. -/
def assetsOf (l : Ledger) (accountId : String) : Finset String :=
  ((l.positions.rows.filter fun r => r.accountId = accountId).map PositionRow.asset).toFinset ∪
    pendingBuyAssets l accountId

structure Capped (policy : RiskPolicy) (refs : String → ℚ) (l : Ledger) : Prop where
  gross : ∀ accountId, heldValue refs l accountId + cashReserved l accountId ≤ policy.maxGrossExposure
  perAsset : ∀ accountId asset,
    |heldOf l accountId asset * refs asset| + cashReservedFor l accountId asset ≤ policy.perAssetExposureCap

/-- No account holds or waits for more assets than the policy allows. -/
def WithinPositions (policy : RiskPolicy) (l : Ledger) : Prop :=
  ∀ accountId, (assetsOf l accountId).card ≤ policy.maxPositions

theorem cashFor_released (accountId asset : String) (r : ReservationRow) (h : r.releasedAt ≠ none) :
    r.cashFor accountId asset = 0 := by
  unfold ReservationRow.cashFor
  split
  · exact cashOf_released accountId r h
  · rfl

theorem Matched.cashFor_nonneg (h : Matched l) {r : ReservationRow} (hr : r ∈ l.reservations)
    (accountId asset : String) : 0 ≤ r.cashFor accountId asset := by
  unfold ReservationRow.cashFor
  split
  · exact h.cashOf_nonneg hr accountId
  · exact le_rfl

/-! ## The condition -/

/-- What a buy's reservation adds to its notional: slippage, the tick, the fee. -/
def reservationExcess (refPrice quantity : ℚ) (c : InstrumentConstraints) : ℚ :=
  reservationCost refPrice quantity c - quantity * refPrice

/-- What the positions are worth at reference prices beyond what the gate takes them for. -/
def valuationDrift (refs : String → ℚ) (account : AccountState) (asset : String) : ℚ :=
  (account.positions.map fun r => |r.quantity * refs r.asset| - positionValue (onePrice asset (refs asset)) r).sum

/-- The room that the gate leaves under the caps holds what it does not count. -/
structure Room (policy : RiskPolicy) (refs : String → ℚ) (l : Ledger) (account : AccountRow) (asset : String)
    (quantity : ℚ) (c : InstrumentConstraints) : Prop where
  gross : reservationExcess (refs asset) quantity c + valuationDrift refs (stateOf l account) asset ≤
    policy.maxGrossExposure - exposureAfter (stateOf l account) .buy asset (refs asset) quantity
  perAsset : reservationExcess (refs asset) quantity c + cashReservedFor l account.accountId asset ≤
    policy.perAssetExposureCap - perAssetAfter (stateOf l account) .buy asset (refs asset) quantity

/-- Every buy that the attempt would accept leaves room. -/
def LeavesRoom (policy : RiskPolicy) (refs : String → ℚ) (s : Ledger) (a : Attempt) : Prop :=
  ∀ q account used quantity reservation notional, a.call.request = some q → account ∈ s.accounts →
    account.accountId = q.accountId → q.side = .buy →
    evaluate (stateOf s account) a.manager.riskPolicy (candidateOf q (lossState q s) used) =
      .ok (.accepted quantity reservation notional) →
    Room policy refs s account q.asset quantity q.constraints

/-- One policy and constant reference prices. -/
structure Constant (policy : RiskPolicy) (refs : String → ℚ) (a : Attempt) : Prop where
  policy : a.manager.riskPolicy = policy
  price : ∀ q, a.call.request = some q → q.referencePrice = refs q.asset

/-! ## The value of the positions -/

theorem sum_filter_positions (rows : List PositionRow) (accountId : String) :
    ((rows.filter fun r => r.accountId = accountId).map fun r => |r.quantity * refs r.asset|).sum =
      (rows.map (PositionRow.valueAt refs accountId)).sum := by
  induction rows with
  | nil => rfl
  | cons r rows ih =>
    rw [List.filter_cons, List.map_cons, List.sum_cons, ← ih]
    unfold PositionRow.valueAt
    by_cases hr : r.accountId = accountId
    · rw [if_pos (decide_eq_true hr), if_pos hr, List.map_cons, List.sum_cons]
    · rw [if_neg (by simpa using hr), if_neg hr, zero_add]

theorem sum_map_sub {α : Type} (f g : α → ℚ) (xs : List α) :
    (xs.map fun x => f x - g x).sum = (xs.map f).sum - (xs.map g).sum := by
  induction xs with
  | nil => simp
  | cons x xs ih =>
    simp only [List.map_cons, List.sum_cons, ih]
    ring

/-- The gate's exposure, with the drift, is the exposure at reference prices. -/
theorem grossExposure_drift (refs : String → ℚ) (l : Ledger) (account : AccountRow) (asset : String) :
    grossExposure (stateOf l account) (onePrice asset (refs asset)) + valuationDrift refs (stateOf l account) asset =
      heldValue refs l account.accountId + cashReserved l account.accountId := by
  have hvalue : ((stateOf l account).positions.map fun r => |r.quantity * refs r.asset|).sum =
      heldValue refs l account.accountId := sum_filter_positions _ _
  have hreserved : (stateOf l account).cashReserved = cashReserved l account.accountId := rfl
  unfold grossExposure valuationDrift
  rw [sum_map_sub, hvalue, hreserved]
  ring

/-! ## Assets -/

variable {accountId asset orderId : String} {now : Instant} {a : Attempt} {s : Ledger}

theorem mem_pendingBuyAssets : asset ∈ pendingBuyAssets l accountId ↔
    ∃ r ∈ l.reservations, r.active accountId = true ∧ r.kind = .cash ∧ r.asset = asset := by
  unfold pendingBuyAssets
  rw [List.mem_toFinset, List.mem_map]
  constructor
  · rintro ⟨r, hr, rfl⟩
    obtain ⟨hm, hsel⟩ := List.mem_filter.mp hr
    simp only [Bool.and_eq_true, decide_eq_true_eq] at hsel
    exact ⟨r, hm, hsel.1, hsel.2, rfl⟩
  · rintro ⟨r, hm, hactive, hkind, rfl⟩
    exact ⟨r, List.mem_filter.mpr ⟨hm, by simp [hactive, hkind]⟩, rfl⟩

theorem mem_assetsOf : asset ∈ assetsOf l accountId ↔
    (∃ p ∈ l.positions, p.accountId = accountId ∧ p.asset = asset) ∨ asset ∈ pendingBuyAssets l accountId := by
  unfold assetsOf
  rw [mem_union, List.mem_toFinset, List.mem_map]
  constructor
  · rintro (⟨p, hp, rfl⟩ | h)
    · obtain ⟨hm, hid⟩ := List.mem_filter.mp hp
      exact .inl ⟨p, hm, of_decide_eq_true hid, rfl⟩
    · exact .inr h
  · rintro (⟨p, hp, hid, rfl⟩ | h)
    · exact .inl ⟨p, List.mem_filter.mpr ⟨hp, decide_eq_true hid⟩, rfl⟩
    · exact .inr h

/-- A quantity that is not zero is held in a position. -/
theorem mem_assetsOf_of_held (h : heldOf l accountId asset ≠ 0) :
    asset ∈ assetsOf l accountId := by
  unfold heldOf at h
  cases hf : l.positions.find? (accountId, asset) with
  | none =>
    rw [hf] at h
    exact absurd rfl h
  | some p =>
    obtain ⟨hm, hk⟩ := Table.find?_eq_some.mp hf
    obtain ⟨hid, hasset⟩ := Prod.mk.inj hk
    exact mem_assetsOf.mpr (.inl ⟨p, hm, hid, hasset⟩)

theorem MayRelease.pending (h : MayRelease l orderId now l'.reservations)
    (hx : asset ∈ pendingBuyAssets l' accountId) : asset ∈ pendingBuyAssets l accountId := by
  obtain ⟨x, hxm, hactive, hkind, hasset⟩ := mem_pendingBuyAssets.mp hx
  rcases h with h | h
  · rw [h] at hxm
    obtain ⟨r, hr, hxr⟩ := mem_release.mp hxm
    split at hxr
    · rw [hxr] at hactive
      simp [ReservationRow.active] at hactive
    · subst hxr
      exact mem_pendingBuyAssets.mpr ⟨x, hr, hactive, hkind, hasset⟩
  · rw [h] at hxm
    exact mem_pendingBuyAssets.mpr ⟨x, hxm, hactive, hkind, hasset⟩

/-! ## Acceptance -/

/-- A reservation is worth at least the quantity at the reference price. -/
theorem le_reservationCost {refPrice quantity : ℚ} (hr : 0 < refPrice) (hq : 0 ≤ quantity) (c : InstrumentConstraints) :
    quantity * refPrice ≤ reservationCost refPrice quantity c := by
  have hslip : refPrice ≤ refPrice * (1 + c.slippageBps / 10000) := by
    have hs := c.slippageBps_nonneg
    have hfactor : (1 : ℚ) ≤ 1 + c.slippageBps / 10000 := by
      linarith
    exact le_mul_of_one_le_right hr.le hfactor
  have hprice : refPrice ≤ executionPrice .buy refPrice c := le_trans hslip (le_roundUp c.priceTick_pos _)
  have hfee : 0 ≤ c.feeFor (quantity * executionPrice .buy refPrice c) := le_trans c.feeMin_nonneg (le_max_left _ _)
  calc quantity * refPrice
      ≤ quantity * executionPrice .buy refPrice c := mul_le_mul_of_nonneg_left hprice hq
    _ ≤ quantity * executionPrice .buy refPrice c + c.feeFor (quantity * executionPrice .buy refPrice c) := by linarith
    _ ≤ reservationCost refPrice quantity c := le_roundUp quantum_pos _

/-- A cash reservation covers its order at the reference price. -/
def Backed (refs : String → ℚ) (l : Ledger) : Prop :=
  ∀ r ∈ l.reservations, r.kind = .cash → ∃ o ∈ l.orders, o.orderId = r.orderId ∧
    o.requestedQuantity * |refs r.asset| ≤ r.amount

theorem Backed.of_mayRelease (hk : Backed refs l) (hc : Change sumText l l')
    (hr : MayRelease l orderId now l'.reservations) : Backed refs l' := by
  intro x hx hkind
  obtain ⟨r, hrm, u, rfl⟩ := hr.row hx
  obtain ⟨o, ho, hid, hle⟩ := hk r hrm hkind
  obtain ⟨y, hy, h1, -, -, -, h5⟩ := hc.order_stays ho
  exact ⟨y, hy, h1.trans hid, by rw [h5]; exact hle⟩

section Accepted

variable {a : Attempt} {q : DecisionRequest} {account : AccountRow} {r : ReceiptDraft} {quantity : ℚ}
  {reservation : ReservationDraft}

variable (h : Accepted a q account r quantity reservation l l')

include h

theorem Accepted.ref_pos : 0 < q.referencePrice := by
  obtain ⟨used, notional, hd⟩ := h.decision
  exact (evaluate_accepted hd).1

theorem Accepted.sized :
    Sized (stateOf l account) q.side q.asset q.referencePrice q.constraints a.manager.riskPolicy quantity := by
  obtain ⟨used, notional, hd⟩ := h.decision
  exact (evaluate_accepted hd).2.2.2.1

theorem Accepted.backed (hc : Constant policy refs a)
    (hk : Backed refs l) : Backed refs l' := by
  intro x hx hkind
  rcases h.begun.mem_reservations.mp hx with hx | rfl
  · obtain ⟨o, ho, hrest⟩ := hk x hx hkind
    exact ⟨o, h.begun.mem_orders.mpr (.inl ho), hrest⟩
  · have hbuy := h.row_kind.mp hkind
    have hprice := hc.price q h.called
    refine ⟨_, h.begun.mem_orders.mpr (.inr rfl), rfl, ?_⟩
    rw [h.row_amount hbuy, h.row_asset, ← hprice, abs_of_pos h.ref_pos]
    exact le_reservationCost h.ref_pos h.sized.quantity_pos.le q.constraints

/-- What the acceptance adds to the cash reserved. -/
theorem Accepted.cashOf_eq (accountId : String) :
    (acceptedRow r q quantity reservation).cashOf accountId =
      if account.accountId = accountId ∧ q.side = .buy then reservationCost q.referencePrice quantity q.constraints
      else 0 := by
  unfold ReservationRow.cashOf
  by_cases hsel : account.accountId = accountId ∧ q.side = .buy
  · rw [if_pos hsel, if_pos ⟨(h.row_active accountId).mpr hsel.1, h.row_kind.mpr hsel.2⟩]
    exact h.row_amount hsel.2
  · rw [if_neg hsel, if_neg]
    rintro ⟨hactive, hkind⟩
    exact hsel ⟨(h.row_active accountId).mp hactive, h.row_kind.mp hkind⟩

theorem Accepted.heldValue (accountId : String) :
    heldValue refs l' accountId = News.heldValue refs l accountId := by
  unfold News.heldValue
  rw [h.positions]

theorem Accepted.heldOf (accountId asset : String) :
    heldOf l' accountId asset = News.heldOf l accountId asset := by
  unfold News.heldOf
  rw [h.positions]

theorem Accepted.reservedFor (accountId asset : String) :
    cashReservedFor l' accountId asset = cashReservedFor l accountId asset +
      if q.asset = asset ∧ account.accountId = accountId ∧ q.side = .buy
      then reservationCost q.referencePrice quantity q.constraints else 0 := by
  have hsum : cashReservedFor l' accountId asset =
      cashReservedFor l accountId asset + (acceptedRow r q quantity reservation).cashFor accountId asset :=
    sum_insert h.begun.reservations
  rw [hsum]
  unfold ReservationRow.cashFor
  rw [h.row_asset, h.cashOf_eq]
  by_cases hasset : q.asset = asset
  · simp [hasset]
  · simp [hasset]

/-- The caps after an acceptance, in terms of the ledger before it. -/
theorem Accepted.capped_iff (hc : Constant policy refs a)
    (hbuy : q.side = .buy) (hl : Capped policy refs l) :
    Capped policy refs l' ↔ Room policy refs l account q.asset quantity q.constraints := by
  have hprice := hc.price q h.called
  have hpos := h.ref_pos
  rw [hprice] at hpos
  have hdrift := grossExposure_drift refs l account q.asset
  have hgross : exposureAfter (stateOf l account) .buy q.asset (refs q.asset) quantity =
      grossExposure (stateOf l account) (onePrice q.asset (refs q.asset)) + quantity * refs q.asset := rfl
  have hasset : perAssetAfter (stateOf l account) .buy q.asset (refs q.asset) quantity =
      |News.heldOf l account.accountId q.asset * refs q.asset| + quantity * refs q.asset := by
    unfold perAssetAfter
    rw [stateOf_held, abs_mul, abs_of_pos hpos]
  have hcash := h.begun.cashReserved
  constructor
  · intro hl'
    have h1 := hl'.gross account.accountId
    have h2 := hl'.perAsset account.accountId q.asset
    rw [h.heldValue, hcash, h.cashOf_eq, if_pos ⟨rfl, hbuy⟩, hprice] at h1
    rw [h.heldOf, h.reservedFor, if_pos ⟨rfl, rfl, hbuy⟩, hprice] at h2
    constructor
    · unfold reservationExcess
      linarith
    · unfold reservationExcess
      linarith
  · intro hroom
    have h1 := hroom.gross
    have h2 := hroom.perAsset
    unfold reservationExcess at h1 h2
    constructor
    · intro accountId
      have hold := hl.gross accountId
      rw [h.heldValue, hcash, h.cashOf_eq, hprice]
      split
      · next hsel =>
        rw [← hsel.1]
        linarith
      · linarith
    · intro accountId asset
      have hold := hl.perAsset accountId asset
      rw [h.heldOf, h.reservedFor, hprice]
      split
      · next hsel =>
        rw [← hsel.1, ← hsel.2.1]
        linarith
      · linarith

theorem Accepted.capped_sell (hsell : q.side = .sell)
    (hl : Capped policy refs l) : Capped policy refs l' := by
  have hne : q.side ≠ .buy := by rw [hsell]; decide
  constructor
  · intro accountId
    rw [h.heldValue, h.begun.cashReserved, h.cashOf_eq, if_neg (fun hs => hne hs.2), add_zero]
    exact hl.gross accountId
  · intro accountId asset
    rw [h.heldOf, h.reservedFor, if_neg (fun hs => hne hs.2.2), add_zero]
    exact hl.perAsset accountId asset

/-- Only the account's own assets grow, by the asset that is bought. -/
theorem Accepted.assets {accountId asset : String}
    (hx : asset ∈ assetsOf l' accountId) :
    asset ∈ assetsOf l accountId ∨ account.accountId = accountId ∧ q.side = .buy ∧ asset = q.asset := by
  rcases mem_assetsOf.mp hx with hp | hp
  · rw [h.positions] at hp
    exact .inl (mem_assetsOf.mpr (.inl hp))
  · obtain ⟨x, hxm, hactive, hkind, hasset⟩ := mem_pendingBuyAssets.mp hp
    rcases h.begun.mem_reservations.mp hxm with hxm | rfl
    · exact .inl (mem_assetsOf.mpr (.inr (mem_pendingBuyAssets.mpr ⟨x, hxm, hactive, hkind, hasset⟩)))
    · exact .inr ⟨(h.row_active accountId).mp hactive, h.row_kind.mp hkind, hasset.symm.trans h.row_asset⟩

theorem Accepted.withinPositions (hc : Constant policy refs a) (hl : WithinPositions policy l) : WithinPositions policy l' := by
  intro accountId
  by_cases hsub : assetsOf l' accountId ⊆ assetsOf l accountId
  · exact le_trans (card_le_card hsub) (hl accountId)
  · -- The acceptance brought a new asset, so the gate has counted the others.
    obtain ⟨asset, hx, hnew⟩ := not_subset.mp hsub
    rcases h.assets hx with hold | ⟨rfl, hbuy, rfl⟩
    · exact absurd hold hnew
    · have hnone : (stateOf l account).position q.asset = none := by
        cases hp : (stateOf l account).position q.asset with
        | none => rfl
        | some p =>
          apply absurd _ hnew
          have hm := List.mem_of_find?_eq_some hp
          obtain ⟨hpm, hid⟩ := List.mem_filter.mp hm
          have hasset := List.find?_some hp
          exact mem_assetsOf.mpr (.inl ⟨p, hpm, of_decide_eq_true hid, of_decide_eq_true hasset⟩)
      have hcard := h.sized.positions hbuy hnone
      rw [hc.policy] at hcard
      have hinsert : assetsOf l' account.accountId ⊆ insert q.asset ((assetsOf l account.accountId).erase q.asset) := by
        intro x hx
        rw [mem_insert, mem_erase]
        by_cases hxq : x = q.asset
        · exact .inl hxq
        · rcases h.assets hx with hold | ⟨-, -, hxa⟩
          · exact .inr ⟨hxq, hold⟩
          · exact absurd hxa hxq
      calc (assetsOf l' account.accountId).card
          ≤ (insert q.asset ((assetsOf l account.accountId).erase q.asset)).card := card_le_card hinsert
        _ ≤ ((assetsOf l account.accountId).erase q.asset).card + 1 := card_insert_le _ _
        _ ≤ policy.maxPositions := hcard

end Accepted

/-! ## Execution -/

/-- Applying an outcome revalues one position. -/
theorem Applied.heldValue {o : ExecutionOutcome} {order : PendingOrder} {account : AccountRow}
    {b : Books} {added : ℚ} (h : Applied sumText o now order account b added l l') (accountId : String) :
    heldValue refs l' accountId = News.heldValue refs l accountId +
      if order.accountId = accountId then
        |b.position * refs order.asset| - |News.heldOf l order.accountId order.asset * refs order.asset|
      else 0 := by
  have hpos : l'.positions = setPosition order b l := by rw [h.frame]
  have hold : ((l.positions.find? (order.accountId, order.asset)).map (PositionRow.valueAt refs accountId)).getD 0 =
      if order.accountId = accountId then |News.heldOf l order.accountId order.asset * refs order.asset| else 0 := by
    unfold News.heldOf
    cases hf : l.positions.find? (order.accountId, order.asset) with
    | none => simp
    | some p =>
      obtain ⟨hid, hasset⟩ := Prod.mk.inj (Table.find?_eq_some.mp hf).2
      simp only [Option.map_some, Option.getD_some, PositionRow.valueAt, hid, hasset]
  unfold News.heldValue
  rw [hpos]
  unfold setPosition
  split
  · next hzero =>
    rw [sum_delete, hold, hzero]
    split
    · simp
      ring
    · ring
  · have hkey : PositionRow.key ⟨order.accountId, order.asset, b.position, b.avgCost⟩ = (order.accountId, order.asset) :=
      rfl
    rw [sum_upsert, hkey, hold]
    unfold PositionRow.valueAt
    dsimp only
    split
    · ring
    · ring

theorem PendingOrder.check_ok {o : PendingOrder} (h : o.check = .ok ()) :
    0 ≤ o.remainingQuantity ∧ 0 ≤ o.filledQuantity ∧ o.filledQuantity + o.remainingQuantity ≤ o.requestedQuantity := by
  obtain ⟨_, -, h⟩ := bind_ok h
  obtain ⟨_, -, h⟩ := bind_ok h
  obtain ⟨_, -, h⟩ := bind_ok h
  obtain ⟨_, -, h⟩ := bind_ok h
  obtain ⟨_, -, h⟩ := bind_ok h
  obtain ⟨_, -, h⟩ := bind_ok h
  obtain ⟨_, -, h⟩ := bind_ok h
  obtain ⟨_, -, h⟩ := bind_ok h
  obtain ⟨-, h⟩ := require_bind_ok h
  obtain ⟨hrem, h⟩ := require_bind_ok h
  obtain ⟨hfilled, h⟩ := require_bind_ok h
  obtain ⟨hsum, -⟩ := require_bind_ok h
  exact ⟨hrem, hfilled, hsum⟩

section Executed

variable {a : Attempt} {x : Execution} {out : ExecutionOutcome} {now : Instant} {b : Books} {added : ℚ}

variable (h : Executed sumText a x out now b added l l')

include h

variable (hcheck : x.order.check = .ok ())

include hcheck

/-- An execution fills no more than was requested. -/
theorem Executed.filled_le (hfills : newFills l out ≠ []) : ((newFills l out).map Fill.quantity).sum ≤ x.order.requestedQuantity := by
  obtain ⟨f, o, hfrom⟩ := h.filledFrom (fills_ne hfills)
  obtain ⟨isPartial, hnew⟩ := h.newFills_eq hfrom
  obtain ⟨hrem, hfilled, hsum⟩ := PendingOrder.check_ok hcheck
  have hle : x.order.remainingQuantity ≤ x.order.requestedQuantity := by linarith
  rw [hnew, quantity_fills]
  calc totalQuantity (x.takes a.manager l o)
      ≤ max 0 (targetQuantity x.order _ x.constraints _) := (plannedTakes_allocation _ _ _ _ _ _).total
    _ ≤ max 0 x.order.remainingQuantity := max_le (le_max_left _ _) targetQuantity_le_remaining
    _ ≤ x.order.requestedQuantity := max_le (le_trans hrem hle) hle

/-- The position that an execution leaves is worth no more than the one before and the reservation it releases. -/
theorem Executed.exposure_le (hb : Booked l) (hm : Matched l) (hk : Backed refs l) {g : ReservationRow → ℚ}
    (hrel : ∀ r : ReservationRow, r.releasedAt ≠ none → g r = 0) (hnn : ∀ r ∈ l.reservations, 0 ≤ g r)
    (hown : ∀ own, For x.order own → own.releasedAt = none → own.kind = .cash → g own = own.amount) :
    |b.position * refs x.order.asset| + l'.reservations.sum g ≤
      |heldOf l x.order.accountId x.order.asset * refs x.order.asset| + l.reservations.sum g := by
  have hless := h.applied.mayRelease.sum_le hrel hnn
  have hopen : (openBooks l x.order x.account).position = heldOf l x.order.accountId x.order.asset := rfl
  have hposted := h.applied.posted
  by_cases hfills : newFills l out = []
  · rw [hfills] at hposted
    rw [hposted.same, hopen]
    linarith
  · cases hside : x.order.side with
    | sell =>
      have hpos := hposted.position_sell hside
      have hnew : 0 ≤ b.position := hposted.position_nonneg hside hfills
      have hq : 0 ≤ ((newFills l out).map Fill.quantity).sum := hposted.quantity_nonneg
      have hle : |b.position * refs x.order.asset| ≤
          |heldOf l x.order.accountId x.order.asset * refs x.order.asset| := by
        rw [abs_mul, abs_mul]
        apply mul_le_mul_of_nonneg_right _ (abs_nonneg _)
        rw [abs_of_nonneg hnew, abs_of_nonneg (by linarith)]
        linarith
      linarith
    | buy =>
      have hpos := hposted.position_buy_eq hside
      rw [hopen] at hpos
      have hq := h.filled_le hcheck hfills
      have hq0 : 0 ≤ ((newFills l out).map Fill.quantity).sum := hposted.quantity_nonneg
      obtain ⟨own, hownm, -, hfor, hlive⟩ := own_reservation hb hm h.applied.order_mem h.applied.live
      have hkind : own.kind = .cash := hfor.kind.mpr hside
      obtain ⟨o, ho, hoid, hback⟩ := hk own hownm hkind
      have hoo : o = x.order := eq_of_key_eq ho h.applied.order_mem (hoid.trans hfor.order)
      rw [hoo, hfor.asset] at hback
      have hsum : l'.reservations.sum g = l.reservations.sum g - own.amount := by
        rw [h.reserved_filled hfills, sum_release hrel, sum_others hb hownm hfor.order, hown own hfor hlive hkind]
      have hvalue : ((newFills l out).map Fill.quantity).sum * |refs x.order.asset| ≤ own.amount :=
        le_trans (mul_le_mul_of_nonneg_right hq (abs_nonneg _)) hback
      have habs : |b.position * refs x.order.asset| ≤
          |heldOf l x.order.accountId x.order.asset * refs x.order.asset| +
            ((newFills l out).map Fill.quantity).sum * |refs x.order.asset| := by
        rw [hpos, add_mul]
        apply le_trans (abs_add_le _ _)
        rw [abs_mul ((newFills l out).map Fill.quantity).sum, abs_of_nonneg hq0]
      linarith

theorem Executed.capped (hb : Booked l) (hm : Matched l) (hk : Backed refs l) (hl : Capped policy refs l) : Capped policy refs l' := by
  have hfor : ∀ own accountId, For x.order own → own.releasedAt = none → own.kind = .cash →
      x.order.accountId = accountId → own.cashOf accountId = own.amount := by
    intro own accountId hfor hlive hkind hid
    unfold ReservationRow.cashOf ReservationRow.active
    simp [hfor.account, hid, hlive, hkind]
  constructor
  · intro accountId
    have hold := hl.gross accountId
    rw [h.applied.heldValue]
    split
    · next hid =>
      subst hid
      have hle := h.exposure_le hcheck hb hm hk (cashOf_released x.order.accountId)
        (fun r hr => hm.cashOf_nonneg hr _) (fun own ho hlive hkind => hfor own _ ho hlive hkind rfl)
      unfold cashReserved at hold ⊢
      linarith
    · have hle := h.applied.mayRelease.sum_le (cashOf_released accountId) (fun r hr => hm.cashOf_nonneg hr _)
      unfold cashReserved at hold ⊢
      linarith
  · intro accountId asset
    have hold := hl.perAsset accountId asset
    rw [h.applied.heldOf]
    split
    · next hkey =>
      obtain ⟨rfl, rfl⟩ := Prod.mk.inj hkey
      have hle := h.exposure_le hcheck hb hm hk (cashFor_released x.order.accountId x.order.asset)
        (fun r hr => hm.cashFor_nonneg hr _ _) (fun own ho hlive hkind => by
          unfold ReservationRow.cashFor
          rw [if_pos ho.asset]
          exact hfor own _ ho hlive hkind rfl)
      unfold cashReservedFor at hold ⊢
      linarith
    · have hle := h.applied.mayRelease.sum_le (cashFor_released accountId asset)
        (fun r hr => hm.cashFor_nonneg hr _ _)
      unfold cashReservedFor at hold ⊢
      linarith

omit hcheck

/-- An execution brings no asset that its account did not hold or wait for. -/
theorem Executed.assets (hb : Booked l) (hm : Matched l)
    (accountId : String) : assetsOf l' accountId ⊆ assetsOf l accountId := by
  intro asset hx
  rcases mem_assetsOf.mp hx with ⟨p, hp, hid, hasset⟩ | hp
  · have hpos : l'.positions = setPosition x.order b l := by rw [h.applied.frame]
    rw [hpos] at hp
    unfold setPosition at hp
    split at hp
    · exact mem_assetsOf.mpr (.inl ⟨p, (mem_delete.mp hp).1, hid, hasset⟩)
    · next hne =>
      rcases mem_upsert.mp hp with rfl | ⟨hp, -⟩
      · -- The order's own asset.
        subst hid hasset
        have hopen : (openBooks l x.order x.account).position = heldOf l x.order.accountId x.order.asset := rfl
        have hposted := h.applied.posted
        by_cases hfills : newFills l out = []
        · rw [hfills] at hposted
          rw [hposted.same, hopen] at hne
          exact mem_assetsOf_of_held hne
        · cases hside : x.order.side with
          | buy =>
            obtain ⟨own, hownm, -, hfor, hlive⟩ := own_reservation hb hm h.applied.order_mem h.applied.live
            apply mem_assetsOf.mpr
            refine .inr (mem_pendingBuyAssets.mpr ⟨own, hownm, ?_, hfor.kind.mpr hside, hfor.asset⟩)
            unfold ReservationRow.active
            simp [hfor.account, hlive]
          | sell =>
            have hsell := hposted.position_sell hside
            have hnew := hposted.position_nonneg hside hfills
            have hq := hposted.quantity_nonneg
            rw [hopen] at hsell
            apply mem_assetsOf_of_held
            intro hzero
            exact hne (by linarith)
      · exact mem_assetsOf.mpr (.inl ⟨p, hp, hid, hasset⟩)
  · exact mem_assetsOf.mpr (.inr (h.applied.mayRelease.pending hp))

end Executed

/-! ## Runs -/

theorem Quiet.capped (h : Quiet l l') (hm : Matched l) (hl : Capped policy refs l) : Capped policy refs l' := by
  obtain ⟨orderId, now, hr⟩ := h.mayRelease
  constructor
  · intro accountId
    have hold := hl.gross accountId
    have hle := hr.sum_le (cashOf_released accountId) (fun r h => hm.cashOf_nonneg h _)
    unfold heldValue cashReserved at hold ⊢
    rw [h.positions]
    linarith
  · intro accountId asset
    have hold := hl.perAsset accountId asset
    have hle := hr.sum_le (cashFor_released accountId asset) (fun r h => hm.cashFor_nonneg h _ _)
    unfold heldOf cashReservedFor at hold ⊢
    rw [h.positions]
    linarith

theorem Quiet.assets (h : Quiet l l') (accountId : String) : assetsOf l' accountId ⊆ assetsOf l accountId := by
  obtain ⟨orderId, now, hr⟩ := h.mayRelease
  intro asset hx
  rcases mem_assetsOf.mp hx with hp | hp
  · rw [h.positions] at hp
    exact mem_assetsOf.mpr (.inl hp)
  · exact mem_assetsOf.mpr (.inr (hr.pending hp))

theorem Move.withinPositions (h : Move sumText a s l l') (hc : Constant policy refs a)
    (hb : Booked l) (hm : Matched l) (hl : WithinPositions policy l) : WithinPositions policy l' := by
  cases h with
  | quiet h => exact fun accountId => le_trans (card_le_card (h.assets accountId)) (hl accountId)
  | accepted _ h => exact h.withinPositions hc hl
  | executed _ _ h => exact fun accountId => le_trans (card_le_card (h.assets hb hm accountId)) (hl accountId)

theorem Move.backed (h : Move sumText a s l l') (hc : Constant policy refs a)
    (hk : Backed refs l) : Backed refs l' := by
  cases h with
  | quiet h =>
    obtain ⟨orderId, now, hr⟩ := h.mayRelease
    have hchange : Change sumText l l' := h.change
    exact hk.of_mayRelease hchange hr
  | accepted _ h => exact h.backed hc hk
  | executed _ _ h => exact hk.of_mayRelease (.applied h.applied) h.applied.mayRelease

theorem Move.capped (h : Move sumText a s l l') (hc : Constant policy refs a)
    (hroom : LeavesRoom policy refs s a) (hb : Booked l) (hm : Matched l) (hk : Backed refs l)
    (hl : Capped policy refs l) : Capped policy refs l' := by
  cases h with
  | quiet h => exact h.capped hm hl
  | @accepted q account _ quantity reservation hs h =>
    subst hs
    cases hside : q.side with
    | buy =>
      obtain ⟨used, notional, hd⟩ := h.decision
      apply (h.capped_iff hc hside hl).mpr
      exact hroom q account used quantity reservation notional h.called h.account_mem h.account_id hside hd
    | sell => exact h.capped_sell hside hl
  | executed _ hr h => exact h.capped hr.order_ok hb hm hk hl

theorem capped_empty (policy : RiskPolicy) (refs : String → ℚ) : Capped policy refs .empty := by
  constructor
  · intro accountId
    have hzero : heldValue refs .empty accountId + cashReserved .empty accountId = 0 := by
      simp [heldValue, cashReserved, Ledger.empty]
    rw [hzero]
    exact policy.maxGrossExposure_nonneg
  · intro accountId asset
    have hheld : heldOf .empty accountId asset = 0 := rfl
    have hreserved : cashReservedFor .empty accountId asset = 0 := rfl
    rw [hheld, hreserved, zero_mul, abs_zero, add_zero]
    exact policy.perAssetExposureCap_nonneg

/-- The position limit needs no more than one policy. -/
theorem withinPositions_of_left {attempts : List Attempt}
    (h : Left sumText (fun _ a => Constant policy refs a) .empty attempts l) : WithinPositions policy l := by
  have hall : Booked l ∧ Matched l ∧ WithinPositions policy l := by
    apply h.moved (P := fun m => Booked m ∧ Matched m ∧ WithinPositions policy m)
    · rintro a s m m' hc hmove ⟨hb, hm, hn⟩
      exact ⟨hmove.change.booked hb, hmove.matched hm, hmove.withinPositions hc hb hm hn⟩
    · exact ⟨booked_empty, fun _ hx => absurd hx not_mem_empty, fun _ => Nat.zero_le _⟩
  exact hall.2.2

/-- **The caps.** With one policy and constant reference prices, every ledger that attempts leave behind is within the
position limit; and within the exposure caps as long as every accepted buy leaves room for what the gate does not
count. -/
theorem capped_of_left {attempts : List Attempt}
    (h : Left sumText (fun s a => Constant policy refs a ∧ LeavesRoom policy refs s a) .empty attempts l) :
    Capped policy refs l ∧ WithinPositions policy l := by
  constructor
  · have hall : Booked l ∧ Matched l ∧ Backed refs l ∧ Capped policy refs l := by
      apply h.moved (P := fun m => Booked m ∧ Matched m ∧ Backed refs m ∧ Capped policy refs m)
      · rintro a s m m' ⟨hc, hroom⟩ hmove ⟨hb, hm, hk, hl⟩
        exact ⟨hmove.change.booked hb, hmove.matched hm, hmove.backed hc hk, hmove.capped hc hroom hb hm hk hl⟩
      · exact ⟨booked_empty, fun _ hx => absurd hx not_mem_empty, fun _ hx => absurd hx not_mem_empty,
          capped_empty policy refs⟩
    exact hall.2.2.2
  · exact withinPositions_of_left (h.mono fun _ _ _ hc => hc.1)

/-- It is enough to look at the sizes. -/
theorem leavesRoom_of_sizes {q : DecisionRequest} (hq : a.call.request = some q)
    (h : ∀ account ∈ s.accounts.rows, Room policy refs s account q.asset (sizedQuantity (stateOf s account) q.side
      q.asset q.referencePrice q.constraints a.manager.riskPolicy q.quantityCap) q.constraints) :
    LeavesRoom policy refs s a := by
  intro q' account used quantity reservation notional hq' hm _ _ hd
  rw [hq] at hq'
  cases hq'
  obtain ⟨-, -, hquantity, -, -⟩ := evaluate_accepted hd
  rw [hquantity]
  exact h account hm

theorem leavesRoom_of_none (h : a.call.request = none) : LeavesRoom policy refs s a := by
  intro q account used quantity reservation notional hq
  rw [h] at hq
  cases hq

theorem constant_of_none (hp : a.manager.riskPolicy = policy) (h : a.call.request = none) :
    Constant policy refs a := by
  refine ⟨hp, fun q hq => ?_⟩
  rw [h] at hq
  cases hq

instance (policy : RiskPolicy) (refs : String → ℚ) (l : Ledger) (account : AccountRow) (asset : String) (quantity : ℚ)
    (c : InstrumentConstraints) : Decidable (Room policy refs l account asset quantity c) :=
  decidable_of_iff
    (reservationExcess (refs asset) quantity c + valuationDrift refs (stateOf l account) asset ≤
      policy.maxGrossExposure - exposureAfter (stateOf l account) .buy asset (refs asset) quantity ∧
    reservationExcess (refs asset) quantity c + cashReservedFor l account.accountId asset ≤
      policy.perAssetExposureCap - perAssetAfter (stateOf l account) .buy asset (refs asset) quantity)
    ⟨fun h => ⟨h.1, h.2⟩, fun h => ⟨h.gross, h.perAsset⟩⟩

theorem capped_oneOrder : Capped plainManager.riskPolicy (fun _ => 100) (ranAll sqliteSum oneOrder) ∧
    WithinPositions plainManager.riskPolicy (ranAll sqliteSum oneOrder) := by
  have hmeets : MeetsAll sqliteSum (fun s a => Constant plainManager.riskPolicy (fun _ => 100) a ∧
      LeavesRoom plainManager.riskPolicy (fun _ => 100) s a) oneOrder := by
    refine ⟨⟨?_, ?_⟩, ⟨?_, ?_⟩, ⟨?_, ?_⟩, trivial⟩
    · exact constant_of_none rfl rfl
    · exact leavesRoom_of_none rfl
    · refine ⟨rfl, fun q hq => ?_⟩
      cases hq
      rfl
    · apply leavesRoom_of_sizes rfl
      decide +kernel
    · exact constant_of_none rfl rfl
    · exact leavesRoom_of_none rfl
  exact capped_of_left (left_ranAll hmeets)

/-- Two buys of one asset for two events: each is sized up to the asset's cap, and neither counts the other. -/
def twoBuys : List Attempt :=
  let c := plainConstraints 1 0 pos_one nonneg_zero
  [plainAttempt (.submitCandidate (plainRequest "receipt-2" "group-2" 100 none c) .accept []),
   plainAttempt (.submitCandidate (plainRequest "receipt-1" "group-1" 100 none c) .accept []),
   plainAttempt (.createAccount "account-1" "run-1" "scenario-1" 10000000 "JPY")]

theorem twoBuys_not_capped : ¬ Capped plainManager.riskPolicy (fun _ => 100) (ranAll sqliteSum twoBuys) := by
  intro h
  have hne : ¬ |heldOf (ranAll sqliteSum twoBuys) "account-1" "asset-1" * 100| +
      cashReservedFor (ranAll sqliteSum twoBuys) "account-1" "asset-1" ≤
        plainManager.riskPolicy.perAssetExposureCap := by
    decide +kernel
  exact hne (h.perAsset "account-1" "asset-1")

end Docich.News
