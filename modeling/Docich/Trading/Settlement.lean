import Docich.Rounding
import Docich.Trading.DepthWalk

/-!
# Constraint-aware settlement

A route is settled leg by leg in whole steps of its markets: each leg orders what its input affords on the depth book,
rounded down, and what the order leaves of the input stays behind as a residual. The whole route is gated before the
first leg.
-/

namespace Docich.Trading

/-! ## Data -/

inductive CircuitMode
  | none
  | circuitBreak
  | fullRangeCircuitBreak
  | resumption
  | listing
  deriving DecidableEq

def CircuitMode.text : CircuitMode → String
  | .none => "NONE"
  | .circuitBreak => "CIRCUIT_BREAK"
  | .fullRangeCircuitBreak => "FULL_RANGE_CIRCUIT_BREAK"
  | .resumption => "RESUMPTION"
  | .listing => "LISTING"

structure CircuitBreakStatus where
  mode : CircuitMode
  feeType : Option String
  fetchedAt : ℚ

structure DatedBook extends DepthBook where
  asOf : ℚ

structure SettlementLeg where
  symbol : String
  side : Side
  inputAmount : ℚ
  orderBaseAmount : ℚ
  consumedInput : ℚ
  residualInput : ℚ
  outputAmount : ℚ
  levelsUsed : ℕ
  feePaidBase : ℚ
  feePaidQuote : ℚ

structure MultiLegSettlement where
  routeId : String
  startAsset : String
  startAmount : ℚ
  finalAmount : Option ℚ
  netEdgeBps : Option ℚ
  complete : Bool
  failedLegSymbol : Option String
  failureReason : Option String
  residuals : List (String × ℚ)
  legs : List SettlementLeg

/-- What a settlement looks up. -/
structure SettlementInputs where
  books : String → Option DatedBook
  markets : String → Option MarketInfo
  circuitStatuses : String → Option CircuitBreakStatus
  now : ℚ
  maxStatusAgeSeconds : ℚ
  maxBookAgeSeconds : ℚ

/-! ## One leg -/

/-- Whole steps, towards zero. -/
def roundDownTo (value step : ℚ) : ℚ := if 0 ≤ value then roundDown step value else -roundDown step (-value)

def affordAsks (quoteFee : ℚ) : List DepthLevel → ℚ → ℚ → ℚ
  | [], _, baseTotal => baseTotal
  | level :: levels, remainingQuote, baseTotal =>
    let quotePerBase := level.price * (1 + quoteFee)
    let take := min level.amount (remainingQuote / quotePerBase)
    if take ≤ 0 then baseTotal
    else affordAsks quoteFee levels (remainingQuote - take * quotePerBase) (baseTotal + take)

def maxAffordableBase (leg : ArbitrageLeg) (book : DepthBook) (inputAmount : ℚ) : ℚ :=
  match leg.side with
  | .sell => min (inputAmount / (1 + leg.feeRateBase)) (book.bids.map DepthLevel.amount).sum
  | .buy => affordAsks leg.feeRateQuote book.asks inputAmount 0

/-- What is left of the order, what it came to, and the levels that it used. -/
def executeLevels : List DepthLevel → ℚ → ℚ → ℕ → ℚ × ℚ × ℕ
  | [], remaining, grossQuote, levelsUsed => (remaining, grossQuote, levelsUsed)
  | level :: levels, remaining, grossQuote, levelsUsed =>
    if remaining ≤ 0 then (remaining, grossQuote, levelsUsed)
    else
      let take := min remaining level.amount
      if 0 < take then
        executeLevels levels (remaining - take) (grossQuote + take * level.price) (levelsUsed + 1)
      else executeLevels levels remaining grossQuote levelsUsed

structure BaseExecution where
  consumed : ℚ
  output : ℚ
  baseFee : ℚ
  quoteFee : ℚ
  levelsUsed : ℕ
  complete : Bool

def executeBaseOrder (leg : ArbitrageLeg) (book : DepthBook) (baseAmount : ℚ) : BaseExecution :=
  let walked := executeLevels (legLevels leg book) baseAmount 0 0
  if 0 < walked.1 then ⟨0, 0, 0, 0, walked.2.2, false⟩
  else
    let grossQuote := walked.2.1
    let baseFee := baseAmount * leg.feeRateBase
    let quoteFee := grossQuote * leg.feeRateQuote
    match leg.side with
    | .buy => ⟨grossQuote + quoteFee, baseAmount - baseFee, baseFee, quoteFee, walked.2.2, true⟩
    | .sell => ⟨baseAmount + baseFee, grossQuote - quoteFee, baseFee, quoteFee, walked.2.2, true⟩

/-- A leg that the gate lets through, with its market and its book. -/
structure GatedLeg where
  leg : ArbitrageLeg
  market : MarketInfo
  book : DatedBook
  amountStep : ℚ
  minAmount : ℚ
  amountStep_eq : market.amountStep = some amountStep
  minAmount_eq : market.minAmount = some minAmount

def GatedLeg.raw (g : GatedLeg) (current : ℚ) : ℚ := maxAffordableBase g.leg g.book.toDepthBook current

def GatedLeg.order (g : GatedLeg) (current : ℚ) : ℚ := roundDownTo (g.raw current) g.amountStep

/-- The quote amount of the order is below the market's minimum. -/
def GatedLeg.BelowMinCost (g : GatedLeg) (x : BaseExecution) : Prop :=
  match g.market.minCost with
  | none => False
  | some minCost =>
    (match g.leg.side with
      | .buy => x.consumed - x.quoteFee
      | .sell => x.output + x.quoteFee) < minCost

instance (g : GatedLeg) (x : BaseExecution) : Decidable (g.BelowMinCost x) := by
  unfold GatedLeg.BelowMinCost
  split <;> infer_instance

def settleLeg (g : GatedLeg) (current : ℚ) : Except String SettlementLeg :=
  let orderBase := g.order current
  if orderBase ≤ 0 ∨ orderBase < g.minAmount then .error "below_min_amount"
  else
    let x := executeBaseOrder g.leg g.book.toDepthBook orderBase
    if x.complete = false then .error "insufficient_depth"
    else if g.BelowMinCost x then .error "below_min_cost"
    else
      let residual := current - x.consumed
      if residual < 0 then .error "insufficient_input"
      else .ok ⟨g.leg.symbol, g.leg.side, current, orderBase, x.consumed, residual, x.output, x.levelsUsed, x.baseFee,
        x.quoteFee⟩

/-! ## The gate -/

def gateLeg (e : SettlementInputs) (leg : ArbitrageLeg) : Except String GatedLeg :=
  match e.markets leg.symbol with
  | none => .error "market_unavailable"
  | some market =>
    if market.active = false ∨ market.spot = false then .error "market_unavailable"
    else
      match hs : market.amountStep, hm : market.minAmount with
      | some amountStep, some minAmount =>
        if market.marketOrderEnabled = false then .error "market_order_disabled"
        else
          match e.circuitStatuses leg.symbol with
          | none => .error "circuit_status_missing"
          | some status =>
            let age := e.now - status.fetchedAt
            if age < -1 ∨ e.maxStatusAgeSeconds < age then .error "circuit_status_stale"
            else if status.mode ≠ .none then .error ("circuit_break:" ++ status.mode.text)
            else if status.feeType ≠ some "NORMAL" then
              .error ("fee_type:" ++ (status.feeType.filter fun t => t ≠ "").getD "MISSING")
            else
              match e.books leg.symbol with
              | none => .error "depth_missing"
              | some book =>
                let bookAge := e.now - book.asOf
                if bookAge < -1 ∨ e.maxBookAgeSeconds < bookAge then .error "depth_stale"
                else .ok ⟨leg, market, book, amountStep, minAmount, hs, hm⟩
      | _, _ => .error "market_constraints_missing"

/-- All legs, or the symbol and the reason of the first that is not let through. -/
def gateLegs (e : SettlementInputs) : List ArbitrageLeg → Except (String × String) (List GatedLeg)
  | [] => .ok []
  | leg :: legs =>
    match gateLeg e leg with
    | .error reason => .error (leg.symbol, reason)
    | .ok g => do
      let gs ← gateLegs e legs
      .ok (g :: gs)

/-! ## The route -/

/-- How far the legs got. -/
structure Settled where
  current : ℚ
  residuals : List (String × ℚ)
  executions : List SettlementLeg
  failed : Option (String × String)

/-- The residual of the asset, if there is one. -/
def residualOf (residuals : List (String × ℚ)) (asset : String) : ℚ := (residuals.lookup asset).getD 0

def addResidual (residuals : List (String × ℚ)) (asset : String) (residual : ℚ) : List (String × ℚ) :=
  if 0 < residual then
    if residuals.any (·.1 = asset) then
      residuals.map fun r => if r.1 = asset then (asset, residualOf residuals asset + residual) else r
    else residuals ++ [(asset, residual)]
  else residuals

def settleLegs : List GatedLeg → ℚ → List (String × ℚ) → List SettlementLeg → Settled
  | [], current, residuals, executions => ⟨current, residuals, executions, none⟩
  | g :: gs, current, residuals, executions =>
    match settleLeg g current with
    | .error reason => ⟨current, residuals, executions, some (g.leg.symbol, reason)⟩
    | .ok x =>
      settleLegs gs x.outputAmount (addResidual residuals g.leg.fromAsset x.residualInput) (executions ++ [x])

def simulateMultilegSettlement (route : ArbitrageRoute) (e : SettlementInputs) (startAmount : ℚ)
    (startAsset : Option String) : Except DepthRaised MultiLegSettlement :=
  -- an empty name counts as none
  let asset := (startAsset.filter fun asset => asset ≠ "").getD route.startAsset
  if startAmount ≤ 0 then .error .startNotPositive
  else do
    let legs ← rotatedLegs route asset
    match gateLegs e legs with
    | .error (symbol, reason) =>
      .ok ⟨route.routeId, asset, startAmount, none, none, false, some symbol, some reason, [], []⟩
    | .ok gated =>
      let settled := settleLegs gated startAmount [] []
      match settled.failed with
      | some (symbol, reason) =>
        .ok ⟨route.routeId, asset, startAmount, none, none, false, some symbol, some reason, settled.residuals,
          settled.executions⟩
      | none =>
        let final := settled.current + residualOf settled.residuals asset
        .ok ⟨route.routeId, asset, startAmount, some final, some (edgeBps (final / startAmount)), true, none, none,
          settled.residuals, settled.executions⟩

end Docich.Trading
