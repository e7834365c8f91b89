import Docich.Durable.Table
import Docich.Rounding
import Docich.Trading.Data

/-!
# The capital allocator

One loop over the opportunities, sells first. It threads what is left of the deployment ceiling, of every quote asset
and of every held symbol.
-/

namespace Docich.Trading

/-! ## Rounding -/

def roundDownStep (amount : ℚ) : Option ℚ → ℚ
  | none => amount
  | some step => if amount ≤ 0 then 0 else roundDown step amount

def roundUpStep (amount : ℚ) : Option ℚ → ℚ
  | none => amount
  | some step =>
    if amount ≤ 0 then amount
    else if amount ≤ roundDown step amount then roundDown step amount
    else roundDown step amount + step

/-- The smallest amount that the floors of the market allow, if it has any. -/
def marketMinAmount (market : MarketInfo) (price : ℚ) : Option ℚ :=
  let required := market.minAmount.filter fun amount => 0 < amount
  match market.minCost.filter fun cost => 0 < cost ∧ 0 < price with
  | none => required
  | some cost => match required with
    | none => some (cost / price)
    | some amount => some (max amount (cost / price))

/-! ## The loop -/

/-- A mapping from assets or symbols to their balances. -/
abbrev Balances := Durable.Table (Prod.fst : String × ℚ → String)

def Balances.get (b : Balances) (key : String) : ℚ := ((b.find? key).map Prod.snd).getD 0

inductive Raised
  | negativeReference
  | negativeQuote
  | negativeBase

/-- What the allocator is given besides the opportunities. -/
structure Inputs where
  markets : String → Option MarketInfo
  prices : String → Option ℚ
  quoteToReference : String → Option ℚ
  availableQuote : Balances
  availableBase : Balances
  capital : ℚ
  deployed : ℚ
  policy : CapitalPolicy
  now : ℚ

def Inputs.totalLimit (e : Inputs) : ℚ := e.capital * e.policy.maxTotalDeployedFraction

/-- What is left. -/
structure Remaining where
  reference : ℚ
  quote : String → ℚ
  base : String → ℚ

/-- The market, the price and the valuation rate of an opportunity. -/
def terms (e : Inputs) (o : Opportunity) : Except String (MarketInfo × ℚ × ℚ) := do
  if o.expiresAt ≤ e.now then
    throw "expired"
  match e.markets o.symbol with
  | none => throw "market_missing"
  | some market =>
    if !market.spot || !market.active then
      throw "market_inactive"
    if !market.marketOrderEnabled then
      throw "market_order_disabled"
    match (e.prices o.symbol).filter fun p => 0 < p with
    | none => throw "price_missing"
    | some price =>
      match (e.quoteToReference market.quote).filter fun r => 0 < r with
      | none => throw "quote_unvalued"
      | some rate => pure (market, price, rate)

def decision (o : Opportunity) (market : MarketInfo) (price rate amount : ℚ) : AllocationDecision where
  opportunityId := o.opportunityId
  strategyId := o.strategyId
  symbol := o.symbol
  side := o.side
  quote := market.quote
  amount := amount
  price := price
  quoteNotional := amount * price
  referenceNotional := amount * price * rate
  reasonCode := o.reasonCode

/-- Skip the opportunity for a reason. -/
def refuse (p : Prop) [Decidable p] (reason : String) : Except String Unit := if p then .error reason else .ok ()

def sellAmount (s : Remaining) (o : Opportunity) (market : MarketInfo) (price : ℚ) : Except String ℚ := do
  let held := s.base o.symbol
  refuse (held ≤ 0) "no_inventory"
  let amount := roundDownStep held market.amountStep
  refuse (amount ≤ 0 ∨ market.minAmount.any (amount < ·)) "below_min_amount"
  refuse (market.minCost.any (amount * price < ·)) "below_min_cost"
  pure amount

def buyAmount (e : Inputs) (s : Remaining) (o : Opportunity) (market : MarketInfo) (price rate : ℚ) :
    Except String ℚ := do
  let quoteBalance := s.quote market.quote
  refuse (quoteBalance ≤ 0) "quote_unavailable"
  refuse (s.reference ≤ 0) "total_cap_exhausted"
  let referenceCap := e.capital * min e.policy.maxOpportunityFraction o.maxNotionalFraction
  let hardCap := e.capital * e.policy.maxOpportunityFraction
  let fundingCap := quoteBalance * rate
  let target := min (min referenceCap s.reference) fundingCap
  refuse (target ≤ 0) "total_cap_exhausted"
  let executableMin := (marketMinAmount market price).map fun required => roundUpStep required market.amountStep
  let minReference := (executableMin.map fun amount => amount * price * rate).getD 0
  refuse (0 < minReference ∧ hardCap < minReference) "below_min_amount"
  refuse (0 < minReference ∧ s.reference < minReference) "total_cap_exhausted"
  refuse (0 < minReference ∧ fundingCap < minReference) "quote_unavailable"
  let rounded := roundDownStep (target / rate / price) market.amountStep
  let amount := max rounded (executableMin.getD rounded)
  refuse (amount ≤ 0) "below_min_amount"
  refuse (market.minAmount.any (amount < ·)) "below_min_amount"
  refuse (market.minCost.any (amount * price < ·)) "below_min_cost"
  refuse (amount * price * rate ≤ 0 ∨ s.reference < amount * price * rate) "total_cap_exhausted"
  pure amount

/-- The decision on an opportunity and what it leaves, or why it is skipped. -/
def consider (e : Inputs) (s : Remaining) (o : Opportunity) : Except String (AllocationDecision × Remaining) := do
  let (market, price, rate) ← terms e o
  match o.side with
  | .sell =>
    let amount ← sellAmount s o market price
    let d := decision o market price rate amount
    pure (d, { reference := min e.totalLimit (s.reference + d.referenceNotional)
               quote := Function.update s.quote market.quote (s.quote market.quote + d.quoteNotional)
               base := Function.update s.base o.symbol (s.base o.symbol - amount) })
  | .buy =>
    let amount ← buyAmount e s o market price rate
    let d := decision o market price rate amount
    pure (d, { s with
      reference := s.reference - d.referenceNotional
      quote := Function.update s.quote market.quote (s.quote market.quote - d.quoteNotional) })

def allocateFrom (e : Inputs) : Remaining → List Opportunity → List AllocationDecision × List SkipDecision
  | _, [] => ([], [])
  | s, o :: rest =>
    match consider e s o with
    | .error reason =>
      let (decisions, skipped) := allocateFrom e s rest
      (decisions, ⟨o.opportunityId, o.symbol, reason, o.side⟩ :: skipped)
    | .ok (d, s) =>
      let (decisions, skipped) := allocateFrom e s rest
      (d :: decisions, skipped)

def Side.rank : Side → Nat
  | .sell => 0
  | .buy => 1

/-- Sells first, then by score, then by id. -/
def Opportunity.Before (a b : Opportunity) : Prop :=
  a.side.rank < b.side.rank ∨ a.side.rank = b.side.rank ∧
    (b.score < a.score ∨ a.score = b.score ∧ a.opportunityId ≤ b.opportunityId)

instance : DecidableRel Opportunity.Before := fun a b => by
  unfold Opportunity.Before
  infer_instance

def Inputs.remaining (e : Inputs) : Remaining where
  reference := max 0 (e.totalLimit - e.deployed)
  quote := e.availableQuote.get
  base := e.availableBase.get

def allocateOpportunities (e : Inputs) (opportunities : List Opportunity) :
    Except Raised (List AllocationDecision × List SkipDecision) :=
  if e.capital < 0 ∨ e.deployed < 0 then .error .negativeReference
  else if e.availableQuote.rows.any fun b => b.2 < 0 then .error .negativeQuote
  else if e.availableBase.rows.any fun b => b.2 < 0 then .error .negativeBase
  else .ok (allocateFrom e e.remaining (opportunities.insertionSort Opportunity.Before))

end Docich.Trading
