import Mathlib.Data.Rat.Floor

/-!
# Quotes and policies of the paper markets

Policies, limits and quotes with what their constructors check, the validation of a quote and the entry signal.

* A decimal is the rational it denotes, a time the number of seconds since the epoch.
* `Host` is what the host's libraries compute: texts to decimals, differences of times, dates, digests. Nothing is
  assumed of it.
-/

namespace Docich.Markets

abbrev Time := ℚ

inductive Market
  | stocks
  | fx
  deriving DecidableEq

/-- What a call can raise. -/
inductive Raised
  | value (message : String)
  | key (name : String)
  | integrity

/-! ## Directions -/

inductive Side
  | long
  | short
  deriving DecidableEq

def Side.sign : Side → ℚ
  | .long => 1
  | .short => -1

/-! ## Policies -/

inductive Strategy
  | momentum
  | reversion

inductive ExitMode
  | fixed
  | trailing
  deriving DecidableEq

structure Policy where
  kind : Strategy
  lookback : Nat
  entryBps : Nat
  stopBps : Nat
  takeBps : Nat
  maxHoldS : Nat
  exitMode : ExitMode
  trailActivationBps : Nat
  trailDistanceBps : Nat
  lookback_range : 3 ≤ lookback ∧ lookback ≤ 120
  entryBps_range : 1 ≤ entryBps ∧ entryBps ≤ 200
  stopBps_range : 5 ≤ stopBps ∧ stopBps ≤ 300
  takeBps_range : 5 ≤ takeBps ∧ takeBps ≤ 600
  maxHoldS_range : 30 ≤ maxHoldS ∧ maxHoldS ≤ 3600
  trailActivationBps_range : 5 ≤ trailActivationBps ∧ trailActivationBps ≤ 600
  trailDistanceBps_range : 5 ≤ trailDistanceBps ∧ trailDistanceBps ≤ 300
  trail_lt : trailDistanceBps < trailActivationBps

structure Limits where
  capitalJpy : ℚ
  allocation : ℚ
  positionFraction : ℚ
  dailyLossFraction : ℚ
  feeBps : ℚ
  slippageBps : ℚ
  financingBpsPerDay : ℚ
  maxSpreadBps : ℚ
  quoteAgeS : Nat
  maxPositions : Nat
  lot : Nat
  feeBps_nonneg : 0 ≤ feeBps
  slippageBps_nonneg : 0 ≤ slippageBps
  financingBpsPerDay_nonneg : 0 ≤ financingBpsPerDay
  maxSpreadBps_nonneg : 0 ≤ maxSpreadBps
  capitalJpy_range : 1000 ≤ capitalJpy ∧ capitalJpy ≤ 1000000000
  positionFraction_pos : 0 < positionFraction
  positionFraction_le : positionFraction ≤ allocation
  allocation_le : allocation ≤ 1
  dailyLossFraction_range : 0 < dailyLossFraction ∧ dailyLossFraction ≤ 1 / 10
  quoteAgeS_range : 1 ≤ quoteAgeS ∧ quoteAgeS ≤ 60
  maxPositions_range : 1 ≤ maxPositions ∧ maxPositions ≤ 20
  lot_pos : 1 ≤ lot

/-! ## Quotes -/

/-- A quote as a feed hands it over; prices and sizes are texts. -/
structure Quote where
  symbol : String
  ts : Time
  bid : String
  ask : String
  bidSize : String
  askSize : String
  tradeable : Bool
  source : String
  currency : String

/-- A quote that passed its validation. -/
structure ValidQuote where
  symbol : String
  ts : Time
  bid : ℚ
  ask : ℚ
  bidSize : ℚ
  askSize : ℚ
  ts_pos : 0 < ts
  bid_pos : 0 < bid
  bid_le_ask : bid ≤ ask
  bidSize_pos : 0 < bidSize
  askSize_pos : 0 < askSize

def ValidQuote.mid (q : ValidQuote) : ℚ := (q.bid + q.ask) / 2

/-- The price at which a position of the side is marked. -/
def ValidQuote.markPrice (q : ValidQuote) : Side → ℚ
  | .long => q.bid
  | .short => q.ask

/-- The price at which a position of the side is entered. -/
def ValidQuote.entryPrice (q : ValidQuote) : Side → ℚ
  | .long => q.ask
  | .short => q.bid

/-- The executable size for closing a position of the side. -/
def ValidQuote.exitSize (q : ValidQuote) : Side → ℚ
  | .long => q.bidSize
  | .short => q.askSize

/-- The executable size for entering on the side. -/
def ValidQuote.entrySize (q : ValidQuote) : Side → ℚ
  | .long => q.askSize
  | .short => q.bidSize

/-- A call of the book: one tick. -/
structure Call where
  quotes : List Quote
  policy : Policy
  now : Time
  allowEntries : Bool
  forceFlat : Bool

/-- What the host's libraries compute. -/
structure Host where
  /-- The finite decimal that a text denotes. -/
  decimal : String → Option ℚ
  /-- The difference of two times. -/
  elapsed : Time → Time → ℚ
  /-- The Tokyo date of a time, unless it is out of the calendar's range. -/
  jstDate : Time → Option String
  /-- Whether the currency markets are open, by the New York clock. -/
  fxWeekOpen : Time → Option Bool
  policyVersion : Policy → String
  tickId : Call → String
  fillId : String → String → String → String

/-- Three to twenty capital letters, digits and underscores. -/
def validSymbol (s : String) : Bool :=
  3 ≤ s.length && s.length ≤ 20 && s.toList.all fun c => c.isUpper || c.isDigit || c = '_'

def spreadBps (bid ask : ℚ) : ℚ := (ask - bid) / ((ask + bid) / 2) * 10000

/-- The quote's numbers, when it is fresh, tradeable, liquid and tight. -/
def Quote.validate (h : Host) (limits : Limits) (now : Time) (q : Quote) : Option ValidQuote := do
  let bid ← h.decimal q.bid
  let ask ← h.decimal q.ask
  let bidSize ← h.decimal q.bidSize
  let askSize ← h.decimal q.askSize
  let age := h.elapsed now q.ts
  if hq : 0 < q.ts ∧ 0 < bid ∧ bid ≤ ask ∧ 0 < bidSize ∧ 0 < askSize then
    if validSymbol q.symbol ∧ 0 ≤ age ∧ age ≤ limits.quoteAgeS ∧ q.currency = "JPY" ∧ q.tradeable ∧ q.source ≠ "" ∧
        spreadBps bid ask ≤ limits.maxSpreadBps then
      some ⟨q.symbol, q.ts, bid, ask, bidSize, askSize, hq.1, hq.2.1, hq.2.2.1, hq.2.2.2.1, hq.2.2.2.2⟩
    else
      none
  else
    none

/-! ## The signal -/

/-- Middle prices with their times, the latest last. -/
abbrev History := List (Time × ℚ)

/-- The change that the strategy looks at, in basis points. -/
def signalChange (recent : List ℚ) (policy : Policy) : ℚ :=
  let last := recent.getLastD 0
  match policy.kind with
  | .momentum => (last / recent.headD 0 - 1) * 10000
  | .reversion => -(last / (recent.sum / recent.length) - 1) * 10000

def signal (history : History) (policy : Policy) : Option Side :=
  if history.length < policy.lookback then
    none
  else
    let recent := (history.drop (history.length - policy.lookback)).map Prod.snd
    let change := signalChange recent policy
    if policy.entryBps ≤ change then
      some .long
    else if change ≤ -policy.entryBps then
      some .short
    else
      none

end Docich.Markets
