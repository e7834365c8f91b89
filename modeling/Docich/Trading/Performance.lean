import Docich.Durable.Table
import Docich.Trading.Data

/-!
# Paper performance

The fills of the paper ledger and the four accounts that are kept of them at average cost: the totals and position rows
of `buildPerformance`, the profit of one fill, the round trips, and the cost basis of the ledger.

* Decimals are the rationals they denote, and a dictionary is a partial function.
* `signalContext` is the parser of the stored context, a parameter.
-/

namespace Docich.Trading

/-- A recorded fill, in the order of its time and row. -/
structure Fill where
  id : String
  symbol : String
  side : Side
  amount : ℚ
  price : ℚ
  filledAt : ℚ
  reasonCode : String
  signalContext : Option String
  strategyId : String
  amount_pos : 0 < amount
  price_pos : 0 < price

abbrev Ledger := Durable.Table Fill.id

/-! ## Totals and positions -/

/-- What is held of a symbol, and what it cost. -/
structure Lot where
  held : ℚ
  cost : ℚ

def Lot.zero : Lot := ⟨0, 0⟩

structure Totals where
  lots : String → Option Lot
  realizedTotal : ℚ
  realizedToday : ℚ

def performanceFill (dayStart : ℚ) (s : Totals) (f : Fill) : Totals :=
  let lot := (s.lots f.symbol).getD .zero
  let lots := Function.update s.lots f.symbol (some lot)
  match f.side with
  | .buy => { s with lots := Function.update lots f.symbol (some ⟨lot.held + f.amount, lot.cost + f.amount * f.price⟩) }
  | .sell =>
    if lot.held ≤ 0 then { s with lots := lots }
    else
      let sold := min f.amount lot.held
      let average := lot.cost / lot.held
      let pnl := sold * (f.price - average)
      { lots := Function.update lots f.symbol (some ⟨lot.held - sold, max 0 (lot.cost - average * sold)⟩)
        realizedTotal := s.realizedTotal + pnl
        realizedToday := if dayStart ≤ f.filledAt then s.realizedToday + pnl else s.realizedToday }

def performanceTotals (dayStart : ℚ) (fills : List Fill) : Totals :=
  fills.foldl (performanceFill dayStart) ⟨fun _ => none, 0, 0⟩

structure PositionRow where
  symbol : String
  amount : ℚ
  avgCost : Option ℚ
  lastPrice : Option ℚ
  marketValue : Option ℚ
  unrealizedPnl : Option ℚ

def positionRow (lots : String → Option Lot) (prices : String → Option ℚ) (symbol : String) (amount : ℚ) : PositionRow :=
  let lot := (lots symbol).getD ⟨amount, 0⟩
  let basisAmount := if 0 < lot.held then lot.held else amount
  let average := if 0 < basisAmount ∧ 0 < lot.cost then some (lot.cost / basisAmount) else none
  let price := prices symbol
  let usable := price.filter fun p => 0 < p
  { symbol := symbol
    amount := amount
    avgCost := average
    lastPrice := price
    marketValue := usable.map fun p => amount * p
    unrealizedPnl := usable.bind fun p => average.map fun a => amount * (p - a) }

structure Performance where
  complete : Bool
  positionCount : Nat
  pricedPositions : Nat
  valuedPositions : Nat
  realizedTotal : ℚ
  todayRealizedPnl : ℚ
  unrealizedPnl : Option ℚ
  cumulativePnl : Option ℚ
  equity : Option ℚ
  positions : List PositionRow

def buildPerformance (fills : List Fill) (capital : Option ℚ) (positions : List (String × Option ℚ))
    (prices : String → Option ℚ) (dayStart : ℚ) : Performance :=
  let totals := performanceTotals dayStart fills
  let rows := positions.filterMap fun p =>
    (p.2.filter fun amount => amount ≠ 0).map fun amount => positionRow totals.lots prices p.1 amount
  let valued := (rows.filter fun r => r.unrealizedPnl.isSome).length
  let unrealized := (rows.map fun r => r.unrealizedPnl.getD 0).sum
  let complete := rows.length = valued
  let cumulative := if complete then some (totals.realizedTotal + unrealized) else none
  { complete := complete
    positionCount := rows.length
    pricedPositions := (rows.filter fun r => r.marketValue.isSome).length
    valuedPositions := valued
    realizedTotal := totals.realizedTotal
    todayRealizedPnl := totals.realizedToday
    unrealizedPnl := if complete then some unrealized else none
    cumulativePnl := cumulative
    equity := capital.bind fun c => cumulative.map fun p => c + p
    positions := rows.insertionSort fun a b => b.marketValue.getD 0 ≤ a.marketValue.getD 0 }

/-! ## One fill -/

def realizedPnlFrom (target : String) (lots : String → Option Lot) : List Fill → Option ℚ
  | [] => none
  | f :: fills =>
    let lot := (lots f.symbol).getD .zero
    let lots := Function.update lots f.symbol (some lot)
    match f.side with
    | .buy =>
      if f.id = target then none
      else realizedPnlFrom target
        (Function.update lots f.symbol (some ⟨lot.held + f.amount, lot.cost + f.amount * f.price⟩)) fills
    | .sell =>
      if lot.held ≤ 0 then
        if f.id = target then none else realizedPnlFrom target lots fills
      else
        let sold := min f.amount lot.held
        let average := lot.cost / lot.held
        let pnl := sold * (f.price - average)
        if f.id = target then some pnl
        else realizedPnlFrom target
          (Function.update lots f.symbol (some ⟨lot.held - sold, max 0 (lot.cost - average * sold)⟩)) fills

def realizedPnlForFill (fills : List Fill) (fillId : String) : Option ℚ :=
  realizedPnlFrom fillId (fun _ => none) fills

/-! ## Round trips -/

/-- What an opening buy is remembered by. -/
structure Entry where
  openedAt : ℚ
  reason : String
  signal : Option String

structure Trip where
  symbol : String
  amount : ℚ
  entryPrice : ℚ
  exitPrice : ℚ
  realized : ℚ
  openedAt : Option ℚ
  closedAt : ℚ
  holdSec : Option ℚ
  entryReason : Option String
  entrySignal : Option String
  exitReason : String
  exitSignal : Option String
  strategyId : String

structure OpenTrip where
  held : ℚ
  cost : ℚ
  entry : Option Entry

structure Trips where
  lots : String → Option OpenTrip
  trips : List Trip

def roundTripFill (signalContext : Option String → Option String) (s : Trips) (f : Fill) : Trips :=
  let lot := (s.lots f.symbol).getD ⟨0, 0, none⟩
  let lots := Function.update s.lots f.symbol (some lot)
  match f.side with
  | .buy =>
    let entry := if lot.held ≤ 0 then some ⟨f.filledAt, f.reasonCode, signalContext f.signalContext⟩ else lot.entry
    { s with lots := Function.update lots f.symbol (some ⟨lot.held + f.amount, lot.cost + f.amount * f.price, entry⟩) }
  | .sell =>
    if lot.held ≤ 0 then { s with lots := lots }
    else
      let sold := min f.amount lot.held
      let average := lot.cost / lot.held
      let trip : Trip :=
        { symbol := f.symbol
          amount := sold
          entryPrice := average
          exitPrice := f.price
          realized := sold * (f.price - average)
          openedAt := lot.entry.map Entry.openedAt
          closedAt := f.filledAt
          holdSec := lot.entry.map fun e => max 0 (f.filledAt - e.openedAt)
          entryReason := lot.entry.map Entry.reason
          entrySignal := lot.entry.bind Entry.signal
          exitReason := f.reasonCode
          exitSignal := signalContext f.signalContext
          strategyId := f.strategyId }
      let entry := if lot.held - sold ≤ 0 then none else lot.entry
      { lots := Function.update lots f.symbol (some ⟨lot.held - sold, max 0 (lot.cost - average * sold), entry⟩)
        trips := s.trips ++ [trip] }

def buildRoundTrips (signalContext : Option String → Option String) (fills : List Fill) (limit : Nat) : List Trip :=
  let trips := (fills.foldl (roundTripFill signalContext) ⟨fun _ => none, []⟩).trips
  (trips.insertionSort fun a b => b.closedAt ≤ a.closedAt).take limit

/-! ## The cost basis of the ledger -/

structure Basis where
  held : ℚ
  cost : ℚ
  openedAt : ℚ

def basisFill (lots : String → Option Basis) (f : Fill) : String → Option Basis :=
  let state := (lots f.symbol).getD ⟨0, 0, f.filledAt⟩
  match f.side with
  | .buy =>
    let openedAt := if state.held = 0 then f.filledAt else state.openedAt
    Function.update lots f.symbol (some ⟨state.held + f.amount, state.cost + f.amount * f.price, openedAt⟩)
  | .sell =>
    if 0 < state.held then
      let average := state.cost / state.held
      let sold := min f.amount state.held
      Function.update lots f.symbol (some ⟨state.held - sold, state.cost - sold * average, state.openedAt⟩)
    else
      Function.update lots f.symbol (some state)

structure CostBasis where
  amount : ℚ
  average : ℚ
  openedAt : ℚ

def positionCostBasis (fills : List Fill) (symbol : String) : Option CostBasis :=
  ((fills.foldl basisFill fun _ => none) symbol).bind fun b =>
    if 0 < b.held then some ⟨b.held, b.cost / b.held, b.openedAt⟩ else none

end Docich.Trading
