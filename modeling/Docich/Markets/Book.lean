import Docich.Durable.Statements
import Docich.Durable.Table
import Docich.Markets.Exits
import Docich.Rounding
import Mathlib.Data.List.Sort

/-!
# The paper book

The account, the tables of the book and one tick of it. A tick reads the account, works on a copy of it quote by
quote, inserts fills as they happen, and stores the account, the tick and its metric at the end, all in one
transaction.

* Dictionaries by symbol are tables where they are summed over, and functions with the default of their lookups.
* Instants of the history, the marks and the last entries keep replayed quotes out.
-/

namespace Docich.Markets

open Durable Position

/-! ## Account and tables -/

structure Account where
  cash : ℚ
  positions : Table Position.symbol
  history : String → History
  lastEntry : String → Time
  day : String
  dayEquity : ℚ
  daySpent : ℚ
  blocked : List String
  riskStopped : Bool
  peak : ℚ
  maxDrawdown : ℚ
  lastTs : Time
  prunedAt : Time
  exitStats : ExitStats

def Account.new (limits : Limits) : Account where
  cash := limits.capitalJpy
  positions := .empty
  history := fun _ => []
  lastEntry := fun _ => 0
  day := ""
  dayEquity := limits.capitalJpy
  daySpent := 0
  blocked := []
  riskStopped := false
  peak := limits.capitalJpy
  maxDrawdown := 0
  lastTs := 0
  prunedAt := 0
  exitStats := .zero

/-- What a close adds to its fill. -/
structure CloseDetails where
  netPnlJpy : ℚ
  reason : Reason
  exit : ExitDetails

structure Fill where
  id : String
  ts : Time
  symbol : String
  side : Side
  qty : ℚ
  price : ℚ
  fee : ℚ
  policy : String
  close : Option CloseDetails

structure Tick where
  id : String
  ts : Time
  quotes : List Quote

structure Metric where
  asOf : Time
  equityJpy : ℚ
  realizedJpy : ℚ
  unrealizedJpy : ℚ
  deployedJpy : ℚ
  policy : String
  maxDrawdown : ℚ
  positions : List Position
  rejectedQuotes : List String
  acceptedQuotes : Nat
  marketAsOf : Time
  pendingLiquidation : Bool
  exitStats : ExitStats
  riskStopped : Bool

structure Book where
  account : Account
  ticks : Table Tick.id
  fills : Table Fill.id
  metrics : Table Metric.asOf

def Book.new (limits : Limits) : Book := ⟨.new limits, .empty, .empty, .empty⟩

/-! ## Marks -/

/-- The valid quote of a symbol. -/
def quoteOf (valid : List ValidQuote) (symbol : String) : Option ValidQuote := valid.find? fun q => q.symbol = symbol

def Position.marked (valid : List ValidQuote) (p : Position) : Position :=
  match quoteOf valid p.symbol with
  | some q => { p with mark := q.markPrice p.side, markTs := q.ts }
  | none => p

theorem Position.marked_symbol (valid : List ValidQuote) (p : Position) : (p.marked valid).symbol = p.symbol := by
  unfold Position.marked
  split <;> rfl

/-- The open profit of a position, less what leaving it would cost. -/
def Position.unrealized (limits : Limits) (p : Position) : ℚ :=
  (p.mark - p.entry) * p.qty * p.side.sign - p.qty * p.mark * (limits.feeBps + limits.slippageBps) / 10000

def Position.value (p : Position) : ℚ := p.qty * p.mark

def markAll (valid : List ValidQuote) (positions : Table Position.symbol) : Table Position.symbol :=
  positions.update (fun _ => true) (Position.marked valid) (marked_symbol valid)

def unrealized (limits : Limits) (positions : Table Position.symbol) : ℚ := positions.sum (Position.unrealized limits)

def deployed (positions : Table Position.symbol) : ℚ := positions.sum Position.value

/-! ## Before the quotes -/

/-- A tick in progress. -/
structure Context where
  host : Host
  market : Market
  limits : Limits
  policy : Policy
  now : Time
  day : String
  tickId : String
  allowEntries : Bool
  forceFlat : Bool
  valid : List ValidQuote
  errors : List String

/-- The instant up to which a symbol's quotes are known. -/
def lastQuote (s : Account) (symbol : String) : Time :=
  let history := ((s.history symbol).getLast?.map Prod.fst).getD 0
  let mark := ((s.positions.find? symbol).map Position.markTs).getD 0
  max (max history mark) (s.lastEntry symbol)

/-- What a position is charged for the time since it was last financed. -/
def financingCharge (c : Context) (p : Position) : ℚ :=
  p.qty * p.mark * c.limits.financingBpsPerDay / 10000 * c.host.elapsed c.now p.financedAt / 86400

def Position.financed (c : Context) (p : Position) : Position :=
  { p with financing := p.financing + financingCharge c p, financedAt := c.now }

theorem Position.financed_symbol (c : Context) (p : Position) : (p.financed c).symbol = p.symbol := rfl

def finance (c : Context) (s : Account) : Account :=
  match c.market with
  | .stocks => s
  | .fx => { s with
      cash := s.cash - s.positions.sum (financingCharge c)
      positions := s.positions.update (fun _ => true) (Position.financed c) (financed_symbol c) }

/-- A new day forgets the day's spending, its blocks and its stop. -/
def rollOver (c : Context) (equity : ℚ) (s : Account) : Account :=
  if s.day ≠ c.day then
    { s with day := c.day, dayEquity := equity, daySpent := 0, blocked := [], riskStopped := false }
  else
    s

def stopRisk (c : Context) (equity : ℚ) (s : Account) : Account :=
  if equity ≤ s.dayEquity * (1 - c.limits.dailyLossFraction) then { s with riskStopped := true } else s

/-- The account that the quotes of a tick find. -/
def openTick (c : Context) (s : Account) : Account :=
  let s := finance c s
  let s := { s with positions := markAll c.valid s.positions }
  let equity := s.cash + unrealized c.limits s.positions
  stopRisk c equity (rollOver c equity s)

/-! ## One quote -/

/-- The symbol's history with the quote, at most 120 entries of it. -/
def historyWith (q : ValidQuote) (history : History) : History :=
  if history.getLast?.all fun last => last.1 < q.ts then
    let history := history ++ [(q.ts, q.mid)]
    history.drop (history.length - 120)
  else
    history

def observeHistory (q : ValidQuote) (s : Account) : Account :=
  { s with history := Function.update s.history q.symbol (historyWith q (s.history q.symbol)) }

def closeFill (c : Context) (p : Position) (reason : Reason) (netPnl price fee : ℚ) (details : ExitDetails) : Fill where
  id := c.host.fillId c.tickId p.symbol "close"
  ts := c.now
  symbol := p.symbol
  side := p.side
  qty := p.qty
  price := price
  fee := fee
  policy := p.policy
  close := some ⟨netPnl, reason, details⟩

def insertFill (fill : Fill) : Statements Book Raised Unit :=
  Statements.tryWrite (fun b => (b.fills.insert? fill).map fun fills => { b with fills := fills }) .integrity

def closePosition (c : Context) (p : Position) (reason : Reason) (s : Account) : Statements Book Raised Account := do
  let price := p.mark * (1 - p.side.sign * c.limits.slippageBps / 10000)
  let fee := p.qty * price * c.limits.feeBps / 10000
  let gross := (price - p.entry) * p.qty * p.side.sign
  let netPnl := gross - fee - p.entryFee - p.financing
  let details ← Statements.ofExcept (fillExitDetails p netPnl)
  insertFill (closeFill c p reason netPnl price fee details)
  pure { s with
    cash := s.cash + gross - fee
    positions := s.positions.delete p.symbol
    blocked := s.blocked ++ [p.symbol]
    exitStats := recordExitStats s.exitStats netPnl details }

/-- A position meets its quote: observe, and leave if there is a reason and the top of the book holds all of it. -/
def holdOrClose (c : Context) (q : ValidQuote) (direction : Option Side) (p : Position) (s : Account) :
    Statements Book Raised Account := do
  let p ← Statements.ofExcept (observeExit p c.limits.feeBps c.limits.slippageBps)
  match p.exitState with
  | none => Statements.throw (.key "exit_state")
  | some state =>
    let (p, reason) := exitReason c.host p state c.now direction c.forceFlat s.riskStopped
    let s := { s with positions := s.positions.upsert p }
    match reason with
    | none => pure s
    | some reason => if q.exitSize p.side < p.qty then pure s else closePosition c p reason s

/-- What may still be deployed by one entry. -/
def entryRoom (c : Context) (s : Account) (equity deployed : ℚ) : ℚ :=
  let room := min (equity * c.limits.positionFraction) (equity * c.limits.allocation - deployed)
  match c.market with
  | .stocks => min room (c.limits.capitalJpy - s.daySpent)
  | .fx => room

/-- The price of an entry, slipped. -/
def fillPrice (c : Context) (q : ValidQuote) (direction : Side) : ℚ :=
  q.entryPrice direction * (1 + direction.sign * c.limits.slippageBps / 10000)

def unitCost (c : Context) (q : ValidQuote) (direction : Side) : ℚ :=
  max (q.entryPrice direction) (fillPrice c q direction) * (1 + c.limits.feeBps / 10000)

/-- The quantity of an entry, in lots. -/
def entryQty (c : Context) (q : ValidQuote) (direction : Side) (room : ℚ) : ℚ :=
  roundDown (c.limits.lot : ℚ) (min (room / unitCost c q direction) (q.entrySize direction))

def newPosition (c : Context) (q : ValidQuote) (direction : Side) (qty : ℚ) : Position :=
  let price := fillPrice c q direction
  { symbol := q.symbol
    side := direction
    qty := qty
    entry := price
    entryFee := qty * price * c.limits.feeBps / 10000
    mark := q.markPrice direction
    markTs := q.ts
    openedAt := c.now
    financedAt := c.now
    financing := 0
    policy := c.host.policyVersion c.policy
    stopBps := c.policy.stopBps
    takeBps := c.policy.takeBps
    maxHoldS := c.policy.maxHoldS
    exitMode := .fixed
    trailActivationBps := 0
    trailDistanceBps := 0
    exitState := none }

def openFill (c : Context) (p : Position) : Fill where
  id := c.host.fillId c.tickId p.symbol "open"
  ts := c.now
  symbol := p.symbol
  side := p.side
  qty := p.qty
  price := p.entry
  fee := p.entryFee
  policy := p.policy
  close := none

def mayEnter (c : Context) (q : ValidQuote) (direction : Side) (s : Account) : Bool :=
  c.allowEntries && !c.forceFlat && !s.riskStopped && s.positions.rows.length < c.limits.maxPositions &&
    s.lastEntry q.symbol < q.ts &&
    (c.market ≠ .stocks || (direction = .long && q.symbol ∉ s.blocked))

def enter (c : Context) (q : ValidQuote) (direction : Side) (s : Account) : Statements Book Raised Account :=
  let s := { s with positions := markAll c.valid s.positions }
  let equity := max 0 (s.cash + unrealized c.limits s.positions)
  let qty := entryQty c q direction (entryRoom c s equity (deployed s.positions))
  if qty ≤ 0 then
    pure s
  else do
    let p := initializeExit (newPosition c q direction qty) c.policy
    let p ← Statements.ofExcept (observeExit p c.limits.feeBps c.limits.slippageBps)
    insertFill (openFill c p)
    pure { s with
      cash := s.cash - p.entryFee
      daySpent := s.daySpent + qty * p.entry + p.entryFee
      lastEntry := Function.update s.lastEntry q.symbol q.ts
      positions := s.positions.upsert p }

def handle (c : Context) (q : ValidQuote) (s : Account) : Statements Book Raised Account :=
  let s := observeHistory q s
  let direction := signal (s.history q.symbol) c.policy
  match s.positions.find? q.symbol with
  | some p => holdOrClose c q direction p s
  | none =>
    match direction with
    | none => pure s
    | some direction => if mayEnter c q direction s then enter c q direction s else pure s

/-- The quotes in their order. -/
def handleAll (c : Context) : List ValidQuote → Account → Statements Book Raised Account
  | [], s => pure s
  | q :: quotes, s => do
    let s ← handle c q s
    handleAll c quotes s

/-! ## After the quotes -/

def closeTick (c : Context) (s : Account) : Account :=
  let s := { s with positions := markAll c.valid s.positions }
  let equity := s.cash + unrealized c.limits s.positions
  let peak := max s.peak equity
  { s with
    peak := peak
    maxDrawdown := max s.maxDrawdown ((peak - equity) / peak)
    lastTs := c.now }

def metricOf (c : Context) (s : Account) : Metric where
  asOf := c.now
  equityJpy := s.cash + unrealized c.limits s.positions
  realizedJpy := s.cash - c.limits.capitalJpy
  unrealizedJpy := unrealized c.limits s.positions
  deployedJpy := deployed s.positions
  policy := c.host.policyVersion c.policy
  maxDrawdown := s.maxDrawdown
  positions := s.positions.rows
  rejectedQuotes := c.errors
  acceptedQuotes := c.valid.length
  marketAsOf := (c.valid.map ValidQuote.ts).foldl max 0
  pendingLiquidation := (c.forceFlat && !s.positions.rows.isEmpty) ||
    s.positions.rows.any fun p => (p.exitState.bind ExitState.requestedReason).isSome
  exitStats := s.exitStats
  riskStopped := s.riskStopped

/-- The rows without those that come after the `keep` latest. -/
def pruned {α κ : Type} [DecidableEq κ] {key : α → κ} (t : Table key) (ts : α → Time) (keep : Nat) : Table key :=
  let newest := t.rows.reverse.insertionSort fun a b => ts b ≤ ts a
  (newest.drop keep).foldl (fun t a => t.delete (key a)) t

/-- Once an hour, old ticks and metrics are dropped. -/
def prune (c : Context) (s : Account) : Statements Book Raised Account :=
  if 3600 ≤ c.host.elapsed c.now s.prunedAt then do
    Statements.write fun b => { b with ticks := pruned b.ticks Tick.ts 20000 }
    Statements.write fun b => { b with metrics := pruned b.metrics Metric.asOf 50000 }
    pure { s with prunedAt := c.now }
  else
    pure s

def finish (c : Context) (quotes : List Quote) (s : Account) : Statements Book Raised Metric := do
  let s ← prune c (closeTick c s)
  let metric := metricOf c s
  Statements.write fun b => { b with account := s }
  Statements.tryWrite
    (fun b => (b.ticks.insert? ⟨c.tickId, c.now, quotes⟩).map fun ticks => { b with ticks := ticks }) .integrity
  Statements.write fun b => { b with metrics := b.metrics.upsert metric }
  pure metric

/-! ## A tick -/

/-- Only quotes that are newer than everything known of their symbol count. -/
def freshContext (c : Context) (s : Account) : Context :=
  { c with
    valid := c.valid.filter fun q => lastQuote s q.symbol < q.ts
    errors := c.errors ++ (c.valid.filter fun q => ¬ lastQuote s q.symbol < q.ts).map ValidQuote.symbol }

/-- The tick's transaction; nothing happens for a tick that is stored already. -/
def tick (c : Context) (quotes : List Quote) : Statements Book Raised (Option Metric) := do
  let known ← Statements.read fun b : Book => (b.ticks.find? c.tickId).isSome
  let s ← Statements.read Book.account
  if known then
    pure none
  else if c.now < s.lastTs then
    Statements.throw (.value "clock moved backwards")
  else do
    let c := freshContext c s
    let s ← handleAll c c.valid (openTick c s)
    let metric ← finish c quotes s
    pure (some metric)

/-- What a call is checked for before the transaction begins. -/
def context (h : Host) (market : Market) (limits : Limits) (call : Call) : Except Raised Context := do
  if call.now ≤ 0 then
    throw (.value "invalid timestamp")
  if 50 < call.quotes.length ∨ ¬ (call.quotes.map Quote.symbol).Nodup then
    throw (.value "duplicate/excess quotes")
  let valid := call.quotes.filterMap (Quote.validate h limits call.now)
  let errors := (call.quotes.filter fun q => (q.validate h limits call.now).isNone).map Quote.symbol
  let isOpen ← match market with
    | .stocks => pure true
    | .fx => match h.fxWeekOpen call.now with
      | some isOpen => pure isOpen
      | none => throw (.value "year is out of range")
  match h.jstDate call.now with
  | none => throw (.value "year is out of range")
  | some day =>
    let allowEntries := call.allowEntries && isOpen
    pure { host := h, market := market, limits := limits, policy := call.policy, now := call.now, day := day,
           tickId := h.tickId { call with allowEntries := allowEntries }, allowEntries := allowEntries,
           forceFlat := call.forceFlat, valid := if isOpen then valid else [], errors := errors }

/-- What is shown of a book. -/
structure Snapshot where
  market : Market
  stale : Bool
  latest : Option Metric
  recentFills : List Fill

def latestMetric (b : Book) : Option Metric := (b.metrics.rows.insertionSort fun m n => n.asOf ≤ m.asOf).head?

def snapshot (h : Host) (market : Market) (limits : Limits) (now : Time) (b : Book) : Snapshot where
  market := market
  stale := limits.quoteAgeS < h.elapsed now (((latestMetric b).map Metric.marketAsOf).getD 0)
  latest := latestMetric b
  recentFills := (b.fills.rows.reverse.insertionSort fun f g => g.ts ≤ f.ts).take 12

inductive Answer
  | metric (m : Metric)
  | snapshot (s : Snapshot)

def process (h : Host) (market : Market) (limits : Limits) (call : Call) (b : Book) : Book × Except Raised Answer :=
  match context h market limits call with
  | .error e => (b, .error e)
  | .ok c =>
    match Statements.transaction (tick c call.quotes) b with
    | (b', .error e) => (b', .error e)
    | (b', .ok none) => (b', .ok (.snapshot (snapshot h market limits call.now b')))
    | (b', .ok (some m)) => (b', .ok (.metric m))

/-- The book after a list of calls, whether they raise or not. -/
def after (h : Host) (market : Market) (limits : Limits) (b : Book) : List Call → Book
  | [] => b
  | call :: calls => after h market limits (process h market limits call b).1 calls

end Docich.Markets
