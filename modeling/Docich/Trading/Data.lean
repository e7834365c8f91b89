import Docich.Plain

/-!
# Markets and opportunities

What the trading models check when they are built. Decimals are the rationals they denote.
-/

namespace Docich.Trading

inductive Side
  | buy
  | sell
  deriving DecidableEq

structure MarketInfo where
  symbol : String
  base : String
  quote : String
  spot : Bool
  active : Bool
  amountStep : Option ℚ
  minAmount : Option ℚ
  minCost : Option ℚ
  takerFeeRateBase : Option ℚ
  takerFeeRateQuote : Option ℚ
  marketOrderEnabled : Bool
  amountStep_pos : ∀ step, amountStep = some step → 0 < step
  minAmount_pos : ∀ amount, minAmount = some amount → 0 < amount
  minCost_pos : ∀ cost, minCost = some cost → 0 < cost
  takerFeeRateBase_range : ∀ fee, takerFeeRateBase = some fee → 0 ≤ fee ∧ fee < 1
  takerFeeRateQuote_range : ∀ fee, takerFeeRateQuote = some fee → 0 ≤ fee ∧ fee < 1

structure Opportunity where
  opportunityId : String
  strategyId : String
  symbol : String
  side : Side
  score : ℚ
  maxNotionalFraction : ℚ
  expiresAt : ℚ
  reasonCode : String
  score_range : 0 ≤ score ∧ score ≤ 1
  maxNotionalFraction_range : 0 < maxNotionalFraction ∧ maxNotionalFraction ≤ 1

structure AllocationDecision where
  opportunityId : String
  strategyId : String
  symbol : String
  side : Side
  quote : String
  amount : ℚ
  price : ℚ
  quoteNotional : ℚ
  referenceNotional : ℚ
  reasonCode : String

structure SkipDecision where
  opportunityId : String
  symbol : String
  reasonCode : String
  side : Side

structure CapitalPolicy where
  maxOpportunityFraction : ℚ
  maxTotalDeployedFraction : ℚ
  maxOpportunityFraction_range : 0 < maxOpportunityFraction ∧ maxOpportunityFraction ≤ 1
  maxTotalDeployedFraction_range : 0 < maxTotalDeployedFraction ∧ maxTotalDeployedFraction ≤ 1

end Docich.Trading
