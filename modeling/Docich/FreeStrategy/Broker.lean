import Docich.Trading.Settlement

/-!
# The paper broker of free strategies

An observation of the order books settles the pending targets of an experiment: each target is tried once, on the
first book that is newer than it, sells before buys, and the account is valued on the bids before and after.
-/

namespace Docich.FreeStrategy

open Durable Trading

/-! ## Experiments -/

inductive Phase
  | research
  | paperValidating
  | paused
  | reviewDue
  | quarantined
  deriving DecidableEq

/-- The phases in which an experiment is observed. -/
def Phase.Observed (p : Phase) : Prop := p = .research ∨ p = .paperValidating ∨ p = .paused

instance (p : Phase) : Decidable p.Observed := inferInstanceAs (Decidable (_ ∨ _))

structure Policy where
  capitalJpy : ℚ
  maxDeployedFraction : ℚ
  stopDrawdownFraction : ℚ
  slippageBps : ℚ
  bookParticipation : ℚ
  sampleSeconds : ℚ
  slippageBps_range : 0 ≤ slippageBps ∧ slippageBps ≤ 10000
  bookParticipation_pos : 0 < bookParticipation
  stopDrawdownFraction_le : stopDrawdownFraction ≤ 1

def Policy.slippage (policy : Policy) : ℚ := policy.slippageBps / 10000

structure Position where
  symbol : String
  amount : ℚ

structure Target where
  symbol : String
  quantity : ℚ
  acceptedAt : ℚ
  runId : String

structure Account where
  cashJpy : ℚ
  positions : Table Position.symbol
  peakEquity : ℚ

structure Experiment where
  phase : Phase
  createdAt : ℚ
  endAt : ℚ
  revision : ℕ
  policy : Policy
  account : Account
  pending : Table Target.symbol
  lastError : Option String

/-! ## Markets -/

structure ObservedBook extends DatedBook where
  symbol : String

def ObservedBook.bestBid (book : ObservedBook) : DepthLevel := book.bids.head book.bids_ne_nil

def ObservedBook.bestAsk (book : ObservedBook) : DepthLevel := book.asks.head book.asks_ne_nil

def ObservedBook.worst (book : ObservedBook) : Side → DepthLevel
  | .buy => book.asks.getLast book.asks_ne_nil
  | .sell => book.bids.getLast book.bids_ne_nil

def ObservedBook.levels (book : ObservedBook) : Side → List DepthLevel
  | .buy => book.asks
  | .sell => book.bids

structure Observation where
  markets : String → Option MarketInfo
  books : String → Option ObservedBook
  statuses : String → Option CircuitBreakStatus
  now : ℚ

/-- A market that passed the checks, with its constraints and its book. -/
structure Venue where
  market : MarketInfo
  book : ObservedBook
  amountStep : ℚ
  minAmount : ℚ
  baseFee : ℚ
  quoteFee : ℚ
  amountStep_pos : 0 < amountStep
  baseFee_range : 0 ≤ baseFee ∧ baseFee < 1
  quoteFee_range : 0 ≤ quoteFee ∧ quoteFee < 1
  spread : book.bestBid.price < book.bestAsk.price

def validateMarket (seen : Observation) (symbol : String) : Except String Venue :=
  match seen.markets symbol with
  | none => .error "market_unavailable"
  | some market =>
    if market.symbol ≠ symbol ∨ market.quote ≠ "JPY" ∨ market.active = false ∨ market.spot = false ∨
        market.marketOrderEnabled = false then
      .error "market_unavailable"
    else
      match hs : market.amountStep, market.minAmount, hb : market.takerFeeRateBase, hq : market.takerFeeRateQuote with
      | some amountStep, some minAmount, some baseFee, some quoteFee =>
        match seen.books symbol with
        | none => .error "depth_unavailable"
        | some book =>
          if h : book.symbol ≠ symbol ∨ ¬ (0 ≤ seen.now - book.asOf ∧ seen.now - book.asOf ≤ 2) ∨
              book.bestAsk.price ≤ book.bestBid.price then
            .error "depth_unavailable"
          else
            match seen.statuses symbol with
            | none => .error "market_status_unavailable"
            | some status =>
              if ¬ (0 ≤ seen.now - status.fetchedAt ∧ seen.now - status.fetchedAt ≤ 5) ∨ status.mode ≠ .none ∨
                  status.feeType ≠ some "NORMAL" then
                .error "market_status_unavailable"
              else
                .ok ⟨market, book, amountStep, minAmount, baseFee, quoteFee, market.amountStep_pos _ hs,
                  market.takerFeeRateBase_range _ hb, market.takerFeeRateQuote_range _ hq,
                  not_le.mp fun hle => h (.inr (.inr hle))⟩
      | _, _, _, _ => .error "market_constraints_missing"

/-! ## Quotes and valuations -/

/-- What the levels leave of the amount, and what the rest comes to. -/
def walkLevels (participation priceFactor : ℚ) : List DepthLevel → ℚ → ℚ → ℚ × ℚ
  | [], remaining, quote => (remaining, quote)
  | level :: levels, remaining, quote =>
    let take := min remaining (level.amount * participation)
    let quote := quote + take * level.price * priceFactor
    if remaining - take ≤ 0 then (remaining - take, quote)
    else walkLevels participation priceFactor levels (remaining - take) quote

/-- The amount that is filled, and what it comes to. -/
def quote (amount : ℚ) (levels : List DepthLevel) (participation priceFactor : ℚ) : ℚ × ℚ :=
  let walked := walkLevels participation priceFactor levels amount 0
  (amount - walked.1, walked.2)

def liquidationValue (policy : Policy) (venue : Venue) (amount : ℚ) : Except String ℚ :=
  let order := amount / (1 + venue.baseFee)
  let quoted := quote order venue.book.bids policy.bookParticipation (1 - policy.slippage)
  if quoted.1 < order then .error "valuation_depth_insufficient"
  else .ok (quoted.2 * (1 - venue.quoteFee))

/-- What a holding of the symbol is worth. Every symbol has been validated when this is asked, so that only the depth
can fail it. -/
def liquidation (policy : Policy) (seen : Observation) (symbol : String) (amount : ℚ) : Except String ℚ := do
  let venue ← validateMarket seen symbol
  liquidationValue policy venue amount

def valuation (policy : Policy) (seen : Observation) : List Position → Except String ℚ
  | [] => .ok 0
  | p :: ps => do
    let value ← liquidation policy seen p.symbol p.amount
    let rest ← valuation policy seen ps
    .ok (value + rest)

/-! ## One target -/

structure Fill where
  symbol : String
  side : Side
  amount : ℚ
  price : ℚ
  feeBase : ℚ
  feeJpy : ℚ
  observedAt : ℚ
  bookAsOf : ℚ
  targetRunId : String
  short : Bool

/-- The account while the targets are settled. -/
structure Run where
  cash : ℚ
  positions : Table Position.symbol
  pending : Table Target.symbol
  fills : List Fill

def heldIn (positions : Table Position.symbol) (symbol : String) : ℚ :=
  ((positions.find? symbol).map Position.amount).getD 0

def Run.held (s : Run) (symbol : String) : ℚ := heldIn s.positions symbol

def Run.hold (s : Run) (symbol : String) (amount : ℚ) : Table Position.symbol :=
  if 0 < amount then s.positions.upsert ⟨symbol, amount⟩ else s.positions.delete symbol

def Run.side (s : Run) (target : Target) : Side := if 0 < target.quantity - s.held target.symbol then .buy else .sell

def Policy.factor (policy : Policy) : Side → ℚ
  | .buy => 1 + policy.slippage
  | .sell => 1 - policy.slippage

/-- What may still be deployed, given what is. -/
def Policy.budget (policy : Policy) (cash deployed : ℚ) : ℚ :=
  min cash (min policy.capitalJpy (cash + deployed) * policy.maxDeployedFraction - deployed)

/-- The amount that the target asks for; a buy is limited by the budget at the worst visible ask. -/
def desired (policy : Policy) (seen : Observation) (venue : Venue) (s : Run) (target : Target) : Except String ℚ :=
  let delta := target.quantity - s.held target.symbol
  match s.side target with
  | .sell => .ok (|delta| / (1 + venue.baseFee))
  | .buy => do
    let deployed ← valuation policy seen s.positions.rows
    let budget := max 0 (policy.budget s.cash deployed)
    .ok (min (|delta| / (1 - venue.baseFee))
      (budget / ((venue.book.worst .buy).price * policy.factor .buy * (1 + venue.quoteFee))))

def orderAmount (policy : Policy) (venue : Venue) (side : Side) (wanted : ℚ) : ℚ :=
  let capacity := ((venue.book.levels side).map DepthLevel.amount).sum * policy.bookParticipation
  roundDownTo (min wanted capacity) venue.amountStep

/-- The quote amount is below the market's minimum. -/
def Venue.BelowMinCost (venue : Venue) (gross : ℚ) : Prop := ∃ minCost ∈ venue.market.minCost, gross < minCost

instance (venue : Venue) (gross : ℚ) : Decidable (venue.BelowMinCost gross) := by
  unfold Venue.BelowMinCost
  infer_instance

/-- The target leaves the pending ones; nothing is filled. -/
def Run.consume (s : Run) (target : Target) : Run := { s with pending := s.pending.delete target.symbol }

def Run.fill (s : Run) (seen : Observation) (venue : Venue) (target : Target) (amount gross : ℚ) : Run :=
  let held := s.held target.symbol
  let feeBase := amount * venue.baseFee
  let feeQuote := gross * venue.quoteFee
  let record (held : ℚ) : Fill := ⟨target.symbol, s.side target, amount, gross / amount, feeBase, feeQuote, seen.now,
    venue.book.asOf, target.runId, held ≠ target.quantity⟩
  match s.side target with
  | .buy =>
    if s.cash < gross + feeQuote then s.consume target
    else
      let held := held + (amount - feeBase)
      ⟨s.cash - (gross + feeQuote), s.hold target.symbol held, s.pending.delete target.symbol, s.fills ++ [record held]⟩
  | .sell =>
    if held < amount + feeBase then s.consume target
    else
      let held := held - (amount + feeBase)
      ⟨s.cash + (gross - feeQuote), s.hold target.symbol held, s.pending.delete target.symbol, s.fills ++ [record held]⟩

def settleTarget (policy : Policy) (seen : Observation) (s : Run) (target : Target) : Except String Run := do
  let venue ← validateMarket seen target.symbol
  -- a book from before the decision never fills the target
  if venue.book.asOf ≤ target.acceptedAt then .ok s
  else do
    let wanted ← desired policy seen venue s target
    let side := s.side target
    let amount := orderAmount policy venue side wanted
    if amount ≤ 0 ∨ amount < venue.minAmount then .ok (s.consume target)
    else
      let quoted := quote amount (venue.book.levels side) policy.bookParticipation (policy.factor side)
      if quoted.1 ≠ amount ∨ venue.BelowMinCost quoted.2 then .ok (s.consume target)
      else .ok (s.fill seen venue target amount quoted.2)

def settleTargets (policy : Policy) (seen : Observation) : List Target → Run → Except String Run
  | [], s => .ok s
  | target :: targets, s => do
    let s' ← settleTarget policy seen s target
    settleTargets policy seen targets s'

/-! ## One observation -/

/-- Sells come first; among themselves, targets go by symbol. -/
def Run.before (s : Run) (a b : Target) : Prop :=
  toLex (decide (s.held a.symbol ≤ a.quantity), a.symbol) ≤ toLex (decide (s.held b.symbol ≤ b.quantity), b.symbol)

instance (s : Run) : DecidableRel s.before := fun a b => by
  unfold Run.before
  infer_instance

def Run.ordered (s : Run) : List Target := s.pending.rows.insertionSort s.before

structure Sample where
  bucket : ℤ
  observedAt : ℚ
  equity : ℚ

structure Outcome where
  experiment : Experiment
  fills : List Fill
  sample : Option Sample

namespace Experiment

variable (exp : Experiment) (seen : Observation)

def expired : Prop := exp.endAt ≤ seen.now

instance : Decidable (exp.expired seen) := inferInstanceAs (Decidable (_ ≤ _))

/-- Without new fills: the experiment is at its end, or paused. -/
def closed : Prop := exp.expired seen ∨ exp.phase = .paused

instance : Decidable (exp.closed seen) := inferInstanceAs (Decidable (_ ∨ _))

/-- The symbols that have to be validated; the source's set has no order. -/
def symbols : List String :=
  exp.account.positions.rows.map Position.symbol ++
    if exp.closed seen then [] else exp.pending.rows.map Target.symbol

/-- The peak with the equity of the moment. -/
def peak (value : ℚ) : ℚ := max exp.account.peakEquity (exp.account.cashJpy + value)

/-- The equity is below what the peak allows. -/
def Drawdown (equity peak : ℚ) : Prop := equity < peak * (1 - exp.policy.stopDrawdownFraction)

instance (equity peak : ℚ) : Decidable (exp.Drawdown equity peak) := inferInstanceAs (Decidable (_ < _))

/-- The run that the targets start from, when the positions are worth `value`. -/
def opening (value : ℚ) : Run where
  cash := exp.account.cashJpy
  positions := exp.account.positions
  pending := if exp.closed seen ∨ exp.Drawdown (exp.account.cashJpy + value) (exp.peak value) then Table.empty else exp.pending
  fills := []

def sampleOf (equity : ℚ) : Sample := ⟨⌊(seen.now - exp.createdAt) / exp.policy.sampleSeconds⌋, seen.now, equity⟩

/-- Without fills, only the peak, the reason and the phase change. -/
def observedAs (phase : Phase) (value : ℚ) : Outcome where
  experiment := { exp with
    phase := phase
    revision := exp.revision + 1
    account := { exp.account with peakEquity := exp.peak value }
    pending := Table.empty
    lastError :=
      if exp.Drawdown (exp.account.cashJpy + value) (exp.peak value) then some "drawdown_limit" else exp.lastError }
  fills := []
  sample := some (exp.sampleOf seen (exp.account.cashJpy + value))

/-- After the fills, when the positions were worth `value` before and `after` now. -/
def settledAs (s : Run) (value after : ℚ) : Outcome :=
  let equity := s.cash + after
  let peak := max (exp.peak value) equity
  let account : Account := ⟨s.cash, s.positions, peak⟩
  let early := exp.Drawdown (exp.account.cashJpy + value) (exp.peak value)
  let revision := (if early then exp.revision + 1 else exp.revision) + 1
  let experiment :=
    if early ∨ exp.Drawdown equity peak then
      { exp with
        phase := .paused, revision := revision, account := account, pending := Table.empty
        lastError := some "drawdown_limit" }
    else { exp with revision := revision, account := account, pending := s.pending }
  ⟨experiment, s.fills, some (exp.sampleOf seen equity)⟩

end Experiment

def settleObservation (exp : Experiment) (seen : Observation) : Except String Outcome :=
  if ¬ exp.phase.Observed then .ok ⟨exp, [], none⟩
  else do
    (exp.symbols seen).forM fun symbol => do
      let _ ← validateMarket seen symbol
      .ok ()
    let value ← valuation exp.policy seen exp.account.positions.rows
    if exp.expired seen then .ok (exp.observedAs seen .reviewDue value)
    else if exp.phase = .paused then .ok (exp.observedAs seen .paused value)
    else do
      let start := exp.opening seen value
      let s ← settleTargets exp.policy seen start.ordered start
      let after ← valuation exp.policy seen s.positions.rows
      .ok (exp.settledAs seen s value after)

end Docich.FreeStrategy
