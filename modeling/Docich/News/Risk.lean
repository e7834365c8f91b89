import Docich.News.Ledger

/-!
# The accept-time risk gate

`evaluate` gates a decision candidate against a snapshot of its account and sizes its order; `headroomSnapshot` is what
an execution may consume, the order's own reservation added back.

* The size is what cash, exposure and inventory leave, in lots (`sizedQuantity`).
* A buy reserves its rounded cost at the worst price (`reservationCost`), which its size does not take into account.
-/

namespace Docich.News

structure RiskPolicy where
  version : String
  maxPositions : Nat
  maxGrossExposure : ℚ
  perAssetExposureCap : ℚ
  dailyLossLimit : ℚ
  drawdownLimit : ℚ
  maxPositions_pos : 1 ≤ maxPositions
  maxGrossExposure_nonneg : 0 ≤ maxGrossExposure
  perAssetExposureCap_nonneg : 0 ≤ perAssetExposureCap
  dailyLossLimit_nonneg : 0 ≤ dailyLossLimit
  drawdownLimit_nonneg : 0 ≤ drawdownLimit

/-- Accept with a reservation, or hold. -/
inductive RiskDecision
  | accepted (requestedQuantity : ℚ) (reservation : ReservationDraft) (estimatedNotional : ℚ)
  | held (reasonCodes : List String)

/-! ## Exposure -/

def onePrice (asset : String) (price : ℚ) (other : String) : Option ℚ := if other = asset then some price else none

def positionValue (refPrices : String → Option ℚ) (r : PositionRow) : ℚ :=
  |r.quantity * (refPrices r.asset).getD r.avgCost|

/-- The value of the positions, at cost where no price is known, and the cash reserved for pending buys. -/
def grossExposure (account : AccountState) (refPrices : String → Option ℚ) : ℚ :=
  (account.positions.map (positionValue refPrices)).sum + account.cashReserved

/-- What an order may consume: its own reservation is added back. -/
def headroomSnapshot (account : AccountState) (policy : RiskPolicy) (refPrices : String → Option ℚ)
    (exclude : Option ReservationRow) : RiskSnapshot :=
  let ownCash := match exclude with
    | some r => if r.kind = .cash then r.amount else 0
    | none => 0
  let ownInventory := match exclude with
    | some r => if r.kind = .cash then 0 else r.quantity
    | none => 0
  let asset := match exclude with
    | some r => r.asset
    | none => ""
  { cashAvailable := max 0 (account.cash - (account.cashReserved - ownCash))
    inventoryAvailable := max 0 (account.held asset - (account.inventoryReserved asset - ownInventory))
    exposureHeadroom := max 0 (policy.maxGrossExposure - (grossExposure account refPrices - ownCash)) }

/-! ## Sizing -/

/-- The unrounded price that sizing takes for a unit. -/
def worstUnitCost (refPrice : ℚ) (c : InstrumentConstraints) : ℚ := refPrice * (1 + c.slippageBps / 10000)

/-- The quantity that cash and the exposure caps leave for a buy. -/
def buyRoom (account : AccountState) (asset : String) (refPrice : ℚ) (c : InstrumentConstraints) (policy : RiskPolicy) :
    ℚ :=
  let spendable := max 0 (account.cashAvailable - c.feeMin)
  let byCash := spendable / (worstUnitCost refPrice c * (1 + c.feeBps / 10000))
  let exposureRoom := policy.perAssetExposureCap / refPrice
  let grossRoom := (policy.maxGrossExposure - grossExposure account (onePrice asset refPrice)) / refPrice
  min (min byCash exposureRoom) grossRoom

/-- What the account leaves for an order of the side. -/
def room (account : AccountState) (side : Side) (asset : String) (refPrice : ℚ) (c : InstrumentConstraints)
    (policy : RiskPolicy) : ℚ :=
  match side with
  | .buy => buyRoom account asset refPrice c policy
  | .sell => account.inventoryAvailable asset

def capped (quantityCap : Option ℚ) (quantity : ℚ) : ℚ :=
  match quantityCap with
  | some cap => min quantity cap
  | none => quantity

def sizedQuantity (account : AccountState) (side : Side) (asset : String) (refPrice : ℚ) (c : InstrumentConstraints)
    (policy : RiskPolicy) (quantityCap : Option ℚ) : ℚ :=
  roundLotDown (capped quantityCap (room account side asset refPrice c policy)) c.lot

def ceilMoney (value : ℚ) : ℚ := roundUp quantum value

/-- The cash that a buy of the quantity reserves: at the slipped price on the tick grid, with the rounded fee. -/
def reservationCost (refPrice quantity : ℚ) (c : InstrumentConstraints) : ℚ :=
  let worstPrice := executionPrice .buy refPrice c
  ceilMoney (quantity * worstPrice + c.feeFor (quantity * worstPrice))

/-! ## The gate -/

def lossCodes (policy : RiskPolicy) (dailyPnl : ℚ) (peakEquity currentEquity : Option ℚ) : List String :=
  let daily := if dailyPnl ≤ -policy.dailyLossLimit then ["DAILY_LOSS_LIMIT"] else []
  let drawdown := match peakEquity, currentEquity with
    | some peak, some current => if policy.drawdownLimit ≤ peak - current then ["DRAWDOWN_LIMIT"] else []
    | _, _ => []
  daily ++ drawdown

/-- The assets, other than the given one, that are held or that a pending buy waits for. -/
def occupied (account : AccountState) (asset : String) : Finset String :=
  ((account.positions.map PositionRow.asset).toFinset ∪ account.pendingBuyAssets).erase asset

def exposureAfter (account : AccountState) (side : Side) (asset : String) (refPrice quantity : ℚ) : ℚ :=
  grossExposure account (onePrice asset refPrice) + match side with
    | .buy => quantity * refPrice
    | .sell => 0

def perAssetAfter (account : AccountState) (side : Side) (asset : String) (refPrice quantity : ℚ) : ℚ :=
  |account.held asset| * refPrice + match side with
    | .buy => quantity * refPrice
    | .sell => 0

def reservationFor (side : Side) (asset : String) (refPrice quantity : ℚ) (c : InstrumentConstraints) :
    ReservationDraft :=
  match side with
  | .buy => ⟨"", .cash, asset, 0, reservationCost refPrice quantity c⟩
  | .sell => ⟨"", .inventory, asset, quantity, 0⟩

/-- The checks on a sized order. -/
def gate (account : AccountState) (side : Side) (asset : String) (refPrice : ℚ) (c : InstrumentConstraints)
    (policy : RiskPolicy) (quantity : ℚ) : RiskDecision :=
  if quantity ≤ 0 ∨ quantity < c.minQuantity ∨ quantity * refPrice < c.minNotional then
    .held ["MIN_ORDER_NOT_MET"]
  else if policy.maxGrossExposure < exposureAfter account side asset refPrice quantity then
    .held ["CURRENCY_EXPOSURE_LIMIT"]
  else if policy.perAssetExposureCap < perAssetAfter account side asset refPrice quantity then
    .held ["CURRENCY_EXPOSURE_LIMIT"]
  else if side = .buy ∧ account.position asset = none ∧ policy.maxPositions ≤ (occupied account asset).card then
    .held ["POSITION_LIMIT"]
  else
    .accepted quantity (reservationFor side asset refPrice quantity c) (quantity * refPrice)

structure Candidate where
  side : Side
  asset : String
  refPrice : ℚ
  constraints : InstrumentConstraints
  now : Instant
  expiresAt : Instant
  quantityCap : Option ℚ
  dailyPnl : ℚ
  peakEquity : Option ℚ
  currentEquity : Option ℚ
  eventAlreadyUsed : Bool

def evaluate (account : AccountState) (policy : RiskPolicy) (q : Candidate) : Except Raised RiskDecision := do
  require (0 < q.refPrice) (.ledger "VALUE_OUT_OF_RANGE")
  let used := if q.eventAlreadyUsed then ["EVENT_ALREADY_USED"] else []
  let codes := used ++ if q.expiresAt ≤ q.now then ["SIGNAL_EXPIRED"] else []
  if codes ≠ [] then
    pure (.held codes)
  else
    let losses := match q.side with
      | .buy => lossCodes policy q.dailyPnl q.peakEquity q.currentEquity
      | .sell => []
    if losses ≠ [] then
      pure (.held losses)
    else
      let quantity := sizedQuantity account q.side q.asset q.refPrice q.constraints policy q.quantityCap
      pure (gate account q.side q.asset q.refPrice q.constraints policy quantity)

/-! ## What acceptance guarantees -/

section Gate

variable {account : AccountState} {side : Side} {asset : String} {refPrice quantity : ℚ} {c : InstrumentConstraints}
  {policy : RiskPolicy}

/-- An accepted order passed every check. -/
structure Sized (account : AccountState) (side : Side) (asset : String) (refPrice : ℚ) (c : InstrumentConstraints)
    (policy : RiskPolicy) (quantity : ℚ) : Prop where
  quantity_pos : 0 < quantity
  exposure : exposureAfter account side asset refPrice quantity ≤ policy.maxGrossExposure
  perAsset : perAssetAfter account side asset refPrice quantity ≤ policy.perAssetExposureCap
  positions : side = .buy → account.position asset = none → (occupied account asset).card < policy.maxPositions

variable {requested notional q lot : ℚ} {reservation : ReservationDraft}

theorem gate_accepted (h : gate account side asset refPrice c policy quantity = .accepted requested reservation notional) :
    Sized account side asset refPrice c policy quantity ∧ requested = quantity ∧
      reservation = reservationFor side asset refPrice quantity c := by
  unfold gate at h
  split at h
  · cases h
  · next hmin =>
    split at h
    · cases h
    · next hexp =>
      split at h
      · cases h
      · next hasset =>
        split at h
        · cases h
        · next hpos =>
          simp only [not_or, not_le, not_lt] at hmin hexp hasset
          cases h
          exact ⟨{ quantity_pos := hmin.1, exposure := hexp, perAsset := hasset,
                   positions := fun hs hn => not_le.mp (fun hc => hpos ⟨hs, hn, hc⟩) }, rfl, rfl⟩

theorem evaluate_accepted {q : Candidate}
    (h : evaluate account policy q = .ok (.accepted requested reservation notional)) :
    0 < q.refPrice ∧ q.eventAlreadyUsed = false ∧
      requested = sizedQuantity account q.side q.asset q.refPrice q.constraints policy q.quantityCap ∧
      Sized account q.side q.asset q.refPrice q.constraints policy requested ∧
      reservation = reservationFor q.side q.asset q.refPrice requested q.constraints := by
  obtain ⟨hpos, h⟩ := require_bind_ok h
  by_cases hcodes : ((if q.eventAlreadyUsed then ["EVENT_ALREADY_USED"] else []) ++
      if q.expiresAt ≤ q.now then ["SIGNAL_EXPIRED"] else []) ≠ []
  · rw [if_pos hcodes] at h
    cases h
  · rw [if_neg hcodes] at h
    by_cases hloss : (match q.side with
        | .buy => lossCodes policy q.dailyPnl q.peakEquity q.currentEquity
        | .sell => []) ≠ []
    · rw [if_pos hloss] at h
      cases h
    · rw [if_neg hloss] at h
      obtain ⟨hsized, rfl, hres⟩ := gate_accepted (Except.ok.inj h)
      refine ⟨hpos, ?_, rfl, hsized, hres⟩
      by_contra hused
      rw [Bool.not_eq_false] at hused
      rw [hused] at hcodes
      exact hcodes (by simp)

theorem roundLotDown_le (hl : 0 < lot) (hq : 0 ≤ q) : roundLotDown q lot ≤ q := by
  unfold roundLotDown
  split
  · exact hq
  · exact roundDown_le hl q

theorem roundLotDown_nonneg (hl : 0 < lot) : 0 ≤ roundLotDown q lot := by
  unfold roundLotDown
  split
  · exact le_rfl
  · next hq => exact roundDown_nonneg hl (not_le.mp hq).le

theorem roundLotDown_of_pos (h : 0 < roundLotDown q lot) : 0 < q := by
  unfold roundLotDown at h
  split at h
  · exact absurd h (lt_irrefl 0)
  · next hq => exact not_le.mp hq

theorem capped_le (cap : Option ℚ) (q : ℚ) : capped cap q ≤ q := by
  cases cap with
  | none => exact le_rfl
  | some cap => exact min_le_left q cap

/-- A size above zero is within the room. -/
theorem sizedQuantity_le {cap : Option ℚ} (h : 0 < sizedQuantity account side asset refPrice c policy cap) :
    sizedQuantity account side asset refPrice c policy cap ≤ room account side asset refPrice c policy := by
  have hpos := roundLotDown_of_pos h
  calc roundLotDown (capped cap (room account side asset refPrice c policy)) c.lot
      ≤ capped cap (room account side asset refPrice c policy) := roundLotDown_le c.lot_pos hpos.le
    _ ≤ room account side asset refPrice c policy := capped_le cap _

end Gate

end Docich.News
