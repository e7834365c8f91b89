import Docich.News.Scalar
import Docich.Plain

/-!
# Next-observation execution of a pending order

The pure execution model: value objects, the choice of the first eligible observation, the sizing of the fills of one
observation and the outcome of `executePendingOrder`.

* The objects carry what their constructors check as fields.
* An outcome balances: `requested = filled + remaining + canceled`.
* The liquidity tracker is the function it computes, `used account observation level`.
-/

namespace Docich.News

/-! ## Value objects -/

inductive Side
  | buy
  | sell
  deriving DecidableEq

inductive OrderStatus
  | pending
  | partiallyFilled
  | filled
  | rejected
  | canceled
  | expired

def OrderStatus.terminal : OrderStatus → Bool
  | .filled | .canceled | .expired | .rejected => true
  | .pending | .partiallyFilled => false

inductive ClockSource
  | ntp
  | vmClock
  | injected
  | unknown
  deriving DecidableEq

structure ClockQuality where
  synced : Bool
  source : ClockSource
  maxErrorMs : Nat
  bounded : maxErrorMs ≤ 60000

def ClockQuality.trusted (q : ClockQuality) : Bool := q.synced && q.source ≠ .unknown

/-- Two clock errors, in microseconds. -/
def ClockQuality.budget (q : ClockQuality) : Int := q.maxErrorMs * 2 * 1000

structure DepthLevel where
  price : ℚ
  size : ℚ
  price_pos : 0 < price
  size_nonneg : 0 ≤ size

structure InstrumentConstraints where
  version : String
  lot : ℚ
  minQuantity : ℚ
  minNotional : ℚ
  priceTick : ℚ
  feeBps : ℚ
  feeMin : ℚ
  slippageBps : ℚ
  spreadLimitBps : ℚ
  participationRate : ℚ
  maxQuoteAgeSeconds : ℚ
  volatilityLimitBps : Option ℚ
  maxOrderNotional : Option ℚ
  lot_pos : 0 < lot
  minQuantity_pos : 0 < minQuantity
  minNotional_nonneg : 0 ≤ minNotional
  priceTick_pos : 0 < priceTick
  feeBps_nonneg : 0 ≤ feeBps
  feeMin_nonneg : 0 ≤ feeMin
  slippageBps_nonneg : 0 ≤ slippageBps
  spreadLimitBps_nonneg : 0 ≤ spreadLimitBps
  participationRate_pos : 0 < participationRate
  participationRate_le : participationRate ≤ 1
  maxQuoteAgeSeconds_nonneg : 0 ≤ maxQuoteAgeSeconds

/-- The fee of a fill, rounded up to one unit of the quote currency. -/
def InstrumentConstraints.feeFor (c : InstrumentConstraints) (notional : ℚ) : ℚ :=
  max c.feeMin (roundUp 1 (notional * c.feeBps / 10000))

inductive SizeSemantics
  | executable
  | indicative
  | unknown
  deriving DecidableEq

/-- Source, asset, market event time and digest of a quote. -/
abbrev QuoteIdentity := String × String × Instant × String

structure MarketObservation where
  observationId : String
  source : String
  asset : String
  ingestSequence : Int
  marketEventAt : Instant
  marketAvailableAt : Instant
  availableAt : Instant
  bid : ℚ
  ask : ℚ
  bidSize : ℚ
  askSize : ℚ
  sizeSemantics : SizeSemantics
  tradeable : Bool
  quoteDigest : String
  instrumentConstraintsVersion : String
  bids : Option (List DepthLevel)
  asks : Option (List DepthLevel)
  sessionOpen : Option Bool
  volatilityBps : Option ℚ
  ingestSequence_pos : 1 ≤ ingestSequence
  event_le_market : marketEventAt ≤ marketAvailableAt
  market_le_available : marketAvailableAt ≤ availableAt
  bid_pos : 0 < bid
  bid_le_ask : bid ≤ ask
  bidSize_nonneg : 0 ≤ bidSize
  askSize_nonneg : 0 ≤ askSize

def MarketObservation.identity (o : MarketObservation) : QuoteIdentity :=
  (o.source, o.asset, o.marketEventAt, o.quoteDigest)

/-- The side of the book that an order of the given side takes from. -/
def MarketObservation.levels (o : MarketObservation) : Side → List DepthLevel
  | .buy => o.asks.getD [⟨o.ask, o.askSize, lt_of_lt_of_le o.bid_pos o.bid_le_ask, o.askSize_nonneg⟩]
  | .sell => o.bids.getD [⟨o.bid, o.bidSize, o.bid_pos, o.bidSize_nonneg⟩]

inductive ReceiptStatus
  | accepted
  | held
  | rejected
  deriving DecidableEq

structure ReceiptState where
  receiptId : String
  status : ReceiptStatus
  inputCutoffSequence : Int
  receiptCommittedAt : Option Instant
  decisionQuote : Option QuoteIdentity
  evidenceValid : Bool

def ReceiptState.committed (r : ReceiptState) : Bool := r.status = .accepted && r.receiptCommittedAt.isSome

structure Fence where
  fenceId : String
  markerId : String
  receiptId : String
  fenceAt : Instant
  clockQuality : ClockQuality
  workerId : String

def Fence.admits (f : Fence) (o : MarketObservation) : Bool := f.fenceAt + f.clockQuality.budget < o.availableAt

/-- What the constructor of a fence checks. -/
def Fence.check (f : Fence) : Except Raised Unit := do
  checkText f.fenceId 128
  checkText f.markerId 128
  checkText f.receiptId 128
  checkText f.workerId 64

structure RiskSnapshot where
  cashAvailable : ℚ
  inventoryAvailable : ℚ
  exposureHeadroom : ℚ

structure PendingOrder where
  orderId : String
  receiptId : String
  runId : String
  scenarioId : String
  accountId : String
  asset : String
  side : Side
  requestedQuantity : ℚ
  remainingQuantity : ℚ
  filledQuantity : ℚ
  status : OrderStatus
  expiresAt : Instant
  acceptedAt : Option Instant
  notBeforeAt : Option Instant
  reservationId : String
  eventUseId : String

/-- What the constructor of a pending order checks. -/
def PendingOrder.check (o : PendingOrder) : Except Raised Unit := do
  checkText o.orderId 128
  checkText o.receiptId 128
  checkText o.runId 128
  checkText o.scenarioId 128
  checkText o.accountId 128
  checkText o.asset 128
  checkText o.reservationId 128
  checkText o.eventUseId 128
  require (0 < o.requestedQuantity) (.execution "VALUE_OUT_OF_RANGE")
  require (0 ≤ o.remainingQuantity) (.execution "VALUE_OUT_OF_RANGE")
  require (0 ≤ o.filledQuantity) (.execution "VALUE_OUT_OF_RANGE")
  require (o.filledQuantity + o.remainingQuantity ≤ o.requestedQuantity) (.execution "VALUE_OUT_OF_RANGE")
  match o.acceptedAt, o.notBeforeAt with
  | some accepted, some notBefore =>
    require (accepted ≤ notBefore ∧ notBefore ≤ o.expiresAt) (.execution "VALUE_OUT_OF_RANGE")
  | _, _ => .ok ()

structure Fill where
  fillId : String
  orderId : String
  receiptId : String
  accountId : String
  asset : String
  side : Side
  quantity : ℚ
  price : ℚ
  feeJpy : ℚ
  slippageBps : ℚ
  quoteRef : String
  marketEventAt : Instant
  marketAvailableAt : Instant
  filledAt : Instant
  isPartial : Bool
  levelIndex : Int

structure ExecutionOutcome where
  orderId : String
  status : OrderStatus
  requestedQuantity : ℚ
  filledQuantity : ℚ
  remainingQuantity : ℚ
  canceledQuantity : ℚ
  fills : List Fill
  reasonCodes : List String
  selectedObservationId : Option String
  terminal : Bool
  balanced : requestedQuantity = filledQuantity + remainingQuantity + canceledQuantity

/-- The quantity consumed of each level: account, observation, level index. -/
abbrev LiquidityTracker := String → String → Int → ℚ

/-! ## Arithmetic -/

def ceilToTick (price tick : ℚ) : ℚ := roundUp tick price

def floorToTick (price tick : ℚ) : ℚ := roundDown tick price

def roundLotDown (quantity lot : ℚ) : ℚ := if quantity ≤ 0 then 0 else roundDown lot quantity

/-- Adverse slippage, then adverse tick rounding. -/
def executionPrice (side : Side) (levelPrice : ℚ) (c : InstrumentConstraints) : ℚ :=
  let slip := c.slippageBps / 10000
  match side with
  | .buy => ceilToTick (levelPrice * (1 + slip)) c.priceTick
  | .sell => floorToTick (levelPrice * (1 - slip)) c.priceTick

def spreadBps (o : MarketObservation) : ℚ :=
  let mid := (o.bid + o.ask) / 2
  (o.ask - o.bid) / mid * 10000

/-! ## Selection -/

/-- The order's first eligible observation in ingest order; two observations with one sequence number are an error
when the scan meets the second. -/
def firstEligible (eligible : MarketObservation → Bool) (seen : List Int) :
    List MarketObservation → Except Raised (Option MarketObservation)
  | [] => .ok none
  | o :: rest =>
    if o.ingestSequence ∈ seen then
      .error (.execution "VALUE_OUT_OF_RANGE")
    else if eligible o then
      .ok (some o)
    else
      firstEligible eligible (o.ingestSequence :: seen) rest

/-- Another quote of the order's asset than the decision was made on, newer than everything the decision saw, and
later than the two clocks can be wrong. -/
def eligible (order : PendingOrder) (receipt : ReceiptState) (fence : Fence) (quote : QuoteIdentity)
    (notBefore budget : Int) (o : MarketObservation) : Bool :=
  o.asset = order.asset && o.identity ≠ quote && receipt.inputCutoffSequence < o.ingestSequence
    && notBefore + budget < o.marketEventAt && notBefore + budget < o.marketAvailableAt && fence.admits o

def selectObservation (order : PendingOrder) (receipt : ReceiptState) (fence : Fence)
    (observations : List MarketObservation) (clock : ClockQuality) :
    Except Raised (Option MarketObservation × List String) :=
  if fence.receiptId ≠ order.receiptId then
    .ok (none, [])
  else if ¬ clock.trusted ∨ ¬ fence.clockQuality.trusted then
    .ok (none, ["CLOCK_UNTRUSTED"])
  else
    match order.notBeforeAt, receipt.decisionQuote with
    | some notBefore, some quote => do
      let budget := max clock.budget fence.clockQuality.budget
      let ordered := observations.insertionSort (fun a b => a.ingestSequence ≤ b.ingestSequence)
      let selected ← firstEligible (eligible order receipt fence quote notBefore budget) [] ordered
      pure (selected, [])
    | _, _ => .ok (none, [])

/-! ## Market quality, sizing and fills -/

/-- Why the market group turns the observation down. -/
def marketRejection (o : MarketObservation) (c : InstrumentConstraints) (now : Instant) : Option String :=
  if o.instrumentConstraintsVersion ≠ c.version then
    some "VALUE_OUT_OF_RANGE"
  else if o.sessionOpen = some false then
    some "MARKET_CLOSED"
  else if ¬ o.tradeable then
    some "QUOTE_UNTRADEABLE"
  else if o.sizeSemantics ≠ .executable then
    some "LIQUIDITY_UNKNOWN"
  else if c.spreadLimitBps < spreadBps o then
    some "SPREAD_TOO_WIDE"
  else if (match c.volatilityLimitBps, o.volatilityBps with
      | some limit, some bps => decide (limit < bps)
      | _, _ => false) then
    some "VOLATILITY_LIMIT"
  else
    let age : ℚ := (now - o.marketAvailableAt : Int) / 1000000
    if age < 0 ∨ c.maxQuoteAgeSeconds < age then some "QUOTE_STALE" else none

/-- A quantity at a level of the book: what is left of it, or what is taken. -/
structure LevelTake where
  index : Nat
  price : ℚ
  quantity : ℚ

def availableLevels (o : MarketObservation) (side : Side) (c : InstrumentConstraints) (liquidity : LiquidityTracker)
    (accountId : String) : List LevelTake :=
  (o.levels side).zipIdx.filterMap fun entry =>
    let capacity := entry.1.size * c.participationRate - liquidity accountId o.observationId entry.2
    if capacity ≤ 0 then none else some ⟨entry.2, entry.1.price, capacity⟩

def maxAffordable (side : Side) (price : ℚ) (c : InstrumentConstraints) (risk : RiskSnapshot) : ℚ :=
  match side with
  | .buy =>
    if price ≤ 0 then
      0
    else
      let unitCost := price * (1 + c.feeBps / 10000)
      if unitCost ≤ 0 then
        0
      else
        let spendable := max 0 (risk.cashAvailable - c.feeMin)
        min (spendable / unitCost) (risk.exposureHeadroom / price)
  | .sell => if price ≤ 0 then 0 else min risk.inventoryAvailable (risk.exposureHeadroom / price)

/-- The price of the level at which the order pays, or gets, most. -/
def worstPrice (side : Side) (c : InstrumentConstraints) : List LevelTake → ℚ
  | [] => 0
  | level :: levels =>
    levels.foldl (fun worst l => max worst (executionPrice side l.price c)) (executionPrice side level.price c)

/-- Level by level in whole lots, until nothing is pending. -/
def allocate (lot : ℚ) : List LevelTake → ℚ → List LevelTake
  | [], _ => []
  | level :: levels, pending =>
    if pending ≤ 0 then
      []
    else
      let take := roundLotDown (min pending level.quantity) lot
      if take ≤ 0 then
        allocate lot levels pending
      else
        { level with quantity := take } :: allocate lot levels (pending - take)

def totalQuantity (takes : List LevelTake) : ℚ := (takes.map LevelTake.quantity).sum

/-- What can be bought or sold of the levels, in lots. -/
def targetQuantity (order : PendingOrder) (levels : List LevelTake) (c : InstrumentConstraints) (affordable : ℚ) : ℚ :=
  roundLotDown (min (min order.remainingQuantity (totalQuantity levels)) affordable) c.lot

/-- The quantity that cash, inventory, exposure and the order limit leave. -/
def affordableQuantity (side : Side) (levels : List LevelTake) (c : InstrumentConstraints) (risk : RiskSnapshot) : ℚ :=
  let worst := worstPrice side c levels
  let affordable := maxAffordable side worst c risk
  match c.maxOrderNotional with
  | some limit => if 0 < worst then min affordable (limit / worst) else affordable
  | none => affordable

/-- The takes of the order from the levels that the journal does not hold yet. -/
def plannedTakes (order : PendingOrder) (o : MarketObservation) (c : InstrumentConstraints) (levels : List LevelTake)
    (affordable : ℚ) (journal : List (String × Int)) : List LevelTake :=
  (allocate c.lot levels (targetQuantity order levels c affordable)).filter fun item =>
    (o.observationId, (item.index : Int)) ∉ journal

def takeFill (order : PendingOrder) (o : MarketObservation) (c : InstrumentConstraints) (now : Instant)
    (isPartial : Bool) (item : LevelTake) : Fill :=
  let price := executionPrice order.side item.price c
  { fillId := order.orderId ++ ":" ++ o.observationId ++ ":" ++ toString item.index
    orderId := order.orderId
    receiptId := order.receiptId
    accountId := order.accountId
    asset := order.asset
    side := order.side
    quantity := item.quantity
    price := price
    feeJpy := c.feeFor (item.quantity * price)
    slippageBps := c.slippageBps
    quoteRef := o.observationId
    marketEventAt := o.marketEventAt
    marketAvailableAt := o.marketAvailableAt
    filledAt := now
    isPartial := isPartial
    levelIndex := item.index }

/-- The fills, the unfilled remainder and the reason of a partial or empty fill. -/
structure BuiltFills where
  fills : List Fill
  remainder : ℚ
  reason : Option String

def buildFills (order : PendingOrder) (o : MarketObservation) (c : InstrumentConstraints) (risk : RiskSnapshot)
    (now : Instant) (liquidity : LiquidityTracker) (journal : List (String × Int)) : BuiltFills :=
  let levels := availableLevels o order.side c liquidity order.accountId
  if levels = [] then
    ⟨[], order.remainingQuantity, some "LIQUIDITY_INSUFFICIENT"⟩
  else
    let affordable := affordableQuantity order.side levels c risk
    let shortage :=
      if affordable < order.remainingQuantity then
        if order.side = .buy then "INSUFFICIENT_FUNDS" else "INSUFFICIENT_INVENTORY"
      else
        "MIN_ORDER_NOT_MET"
    let planned := allocate c.lot levels (targetQuantity order levels c affordable)
    let total := totalQuantity planned
    let gross := (planned.map fun item => item.quantity * executionPrice order.side item.price c).sum
    if targetQuantity order levels c affordable ≤ 0 ∨ total ≤ 0 then
      ⟨[], order.remainingQuantity, some shortage⟩
    else if total < c.minQuantity ∨ gross < c.minNotional then
      ⟨[], order.remainingQuantity, some "MIN_ORDER_NOT_MET"⟩
    else
      let fresh := plannedTakes order o c levels affordable journal
      if fresh = [] then
        ⟨[], order.remainingQuantity, some "ORDER_ALREADY_FINAL"⟩
      else
        let total := totalQuantity fresh
        let cappedByRisk := affordable < min order.remainingQuantity (totalQuantity levels)
        let reason :=
          if total < order.remainingQuantity then
            if cappedByRisk then some "RISK_CHANGED_BEFORE_FILL"
            else if totalQuantity levels < order.remainingQuantity then some "LIQUIDITY_INSUFFICIENT"
            else some "RISK_CHANGED_BEFORE_FILL"
          else
            none
        let isPartial := decide (total < order.requestedQuantity)
        ⟨fresh.map (takeFill order o c now isPartial), order.remainingQuantity - total, reason⟩

/-! ## The entry point -/

def outcome (order : PendingOrder) (status : OrderStatus) (fills : List Fill) (canceled : ℚ) (codes : List String)
    (observationId : Option String) (terminal : Bool) : Except Raised ExecutionOutcome :=
  let filled := order.filledQuantity + (fills.map Fill.quantity).sum
  let remaining := order.requestedQuantity - filled - canceled
  if remaining < 0 then
    .error (.execution "VALUE_OUT_OF_RANGE")
  else
    .ok { orderId := order.orderId, status := status, requestedQuantity := order.requestedQuantity,
          filledQuantity := filled, remainingQuantity := remaining, canceledQuantity := canceled, fills := fills,
          reasonCodes := codes, selectedObservationId := observationId, terminal := terminal,
          balanced := by ring }

def waiting (order : PendingOrder) (codes : List String) (observationId : Option String) (terminal : Bool) :
    Except Raised ExecutionOutcome := outcome order order.status [] 0 codes observationId terminal

/-- The order ends without a fill. -/
def ended (order : PendingOrder) (status : OrderStatus) (code : String) (observationId : Option String) :
    Except Raised ExecutionOutcome := outcome order status [] order.remainingQuantity [code] observationId true

/-- The outcome of the fills of one observation. -/
def settle (order : PendingOrder) (observationId : String) (built : BuiltFills) : Except Raised ExecutionOutcome :=
  if built.reason = some "ORDER_ALREADY_FINAL" then
    waiting order ["ORDER_ALREADY_FINAL"] (some observationId) order.status.terminal
  else if built.fills = [] then
    if built.reason = some "LIQUIDITY_INSUFFICIENT" then
      waiting order ["LIQUIDITY_INSUFFICIENT"] (some observationId) false
    else
      ended order .canceled (built.reason.getD "MIN_ORDER_NOT_MET") (some observationId)
  else if (built.fills.map Fill.quantity).sum = order.remainingQuantity then
    outcome order .filled built.fills 0 [] (some observationId) true
  else
    outcome order .canceled built.fills built.remainder ("IOC_REMAINDER_CANCELED" :: built.reason.toList)
      (some observationId) true

def executePendingOrder (order : PendingOrder) (receipt : ReceiptState) (fence : Option Fence)
    (observations : List MarketObservation) (c : InstrumentConstraints) (risk : RiskSnapshot) (clock : ClockQuality)
    (now : Instant) (liquidity : LiquidityTracker) (journal : List (String × Int)) :
    Except Raised ExecutionOutcome :=
  if order.receiptId ≠ receipt.receiptId then
    ended order .canceled "ACCOUNT_SCOPE_MISMATCH" none
  else if ¬ clock.trusted then
    ended order .canceled "CLOCK_UNTRUSTED" none
  else if order.status.terminal then
    waiting order ["ORDER_ALREADY_FINAL"] none true
  else if order.expiresAt ≤ now then
    ended order .expired "ORDER_EXPIRED" none
  else if ¬ receipt.committed ∨ order.acceptedAt = none ∨ order.notBeforeAt = none then
    waiting order ["RECEIPT_NOT_COMMITTED"] none false
  else if ¬ receipt.evidenceValid then
    ended order .canceled "EVIDENCE_REVOKED" none
  else
    match fence with
    | none => waiting order [] none false
    | some fence =>
      if fence.receiptId ≠ order.receiptId then
        waiting order [] none false
      else if ¬ fence.clockQuality.trusted then
        ended order .canceled "CLOCK_UNTRUSTED" none
      else do
        let selected ← selectObservation order receipt fence observations clock
        match selected.1 with
        | none => waiting order selected.2 none false
        | some o =>
          if selected.2 ≠ [] then
            waiting order selected.2 none false
          else
            match marketRejection o c now with
            | some rejection =>
              if rejection = "VALUE_OUT_OF_RANGE" then
                .error (.execution rejection)
              else
                waiting order [rejection] (some o.observationId) false
            | none => settle order o.observationId (buildFills order o c risk now liquidity journal)

end Docich.News
