import Docich.Trading.Arbitrage

/-!
# The depth walk

A route taken through the levels of its depth books, one leg after the other.
-/

namespace Docich.Trading

structure DepthLevel where
  price : ℚ
  amount : ℚ
  price_pos : 0 < price
  amount_pos : 0 < amount

structure DepthBook where
  bids : List DepthLevel
  asks : List DepthLevel
  bids_ne_nil : bids ≠ []
  asks_ne_nil : asks ≠ []
  bids_sorted : bids.Pairwise fun a b => b.price ≤ a.price
  asks_sorted : asks.Pairwise fun a b => a.price ≤ b.price

structure DepthLegSimulation where
  symbol : String
  fromAsset : String
  toAsset : String
  side : Side
  inputAmount : ℚ
  filledInput : ℚ
  grossOutput : ℚ
  tradedBaseAmount : ℚ
  feePaidBase : ℚ
  feePaidQuote : ℚ
  outputAmount : ℚ
  levelsUsed : ℕ
  complete : Bool

structure DepthRouteSimulation where
  routeId : String
  startAsset : String
  startAmount : ℚ
  finalAmount : Option ℚ
  netEdgeBps : Option ℚ
  complete : Bool
  failedLegSymbol : Option String
  legs : List DepthLegSimulation

inductive DepthRaised
  | inputNotPositive
  | startNotPositive
  | startAssetMissing (asset : String)

/-- The legs from the first one that starts at the asset, then those before it. -/
def rotatedLegs (route : ArbitrageRoute) (startAsset : String) : Except DepthRaised (List ArbitrageLeg) :=
  match route.legs.findIdx? fun leg => leg.fromAsset = startAsset with
  | some index => .ok (route.legs.drop index ++ route.legs.take index)
  | none => .error (.startAssetMissing startAsset)

/-! ## One leg -/

/-- The totals that the walk over the levels adds up. -/
structure Walk where
  remaining : ℚ
  filled : ℚ
  gross : ℚ
  tradedBase : ℚ
  feeBaseTotal : ℚ
  feeQuoteTotal : ℚ
  levelsUsed : ℕ

def Walk.start (requested : ℚ) : Walk := ⟨requested, 0, 0, 0, 0, 0, 0⟩

def levelInputCapacity (leg : ArbitrageLeg) (level : DepthLevel) : ℚ :=
  match leg.side with
  | .sell => level.amount * (1 + leg.feeRateBase)
  | .buy => level.amount * level.price * (1 + leg.feeRateQuote)

/-- The base amount that an input executes at a level. -/
def executedBase (leg : ArbitrageLeg) (level : DepthLevel) (takeInput : ℚ) : ℚ :=
  match leg.side with
  | .sell => takeInput / (1 + leg.feeRateBase)
  | .buy => takeInput / (level.price * (1 + leg.feeRateQuote))

def levelGross (leg : ArbitrageLeg) (level : DepthLevel) (executed : ℚ) : ℚ :=
  match leg.side with
  | .sell => executed * level.price
  | .buy => executed

def Walk.level (leg : ArbitrageLeg) (w : Walk) (level : DepthLevel) : Walk :=
  if w.remaining ≤ 0 then w
  else
    let takeInput := min w.remaining (levelInputCapacity leg level)
    let executed := executedBase leg level takeInput
    if 0 < takeInput then
      { remaining := w.remaining - takeInput
        filled := w.filled + takeInput
        gross := w.gross + levelGross leg level executed
        tradedBase := w.tradedBase + executed
        feeBaseTotal := w.feeBaseTotal + executed * leg.feeRateBase
        feeQuoteTotal := w.feeQuoteTotal + executed * level.price * leg.feeRateQuote
        levelsUsed := w.levelsUsed + 1 }
    else w

def legLevels (leg : ArbitrageLeg) (book : DepthBook) : List DepthLevel :=
  match leg.side with
  | .sell => book.bids
  | .buy => book.asks

def simulateLeg (leg : ArbitrageLeg) (book : DepthBook) (inputAmount : ℚ) : Except DepthRaised DepthLegSimulation :=
  if inputAmount ≤ 0 then .error .inputNotPositive
  else
    let w := (legLevels leg book).foldl (Walk.level leg) (.start inputAmount)
    .ok { symbol := leg.symbol, fromAsset := leg.fromAsset, toAsset := leg.toAsset, side := leg.side
          inputAmount := inputAmount, filledInput := w.filled, grossOutput := w.gross
          tradedBaseAmount := w.tradedBase, feePaidBase := w.feeBaseTotal, feePaidQuote := w.feeQuoteTotal
          outputAmount := match leg.side with
            | .sell => w.gross - w.feeQuoteTotal
            | .buy => w.gross - w.feeBaseTotal
          levelsUsed := w.levelsUsed, complete := decide (w.remaining ≤ 0) }

/-! ## The route -/

/-- How the walk over the legs ended: at a leg it could not fill, or with the amount it got back. -/
inductive Walked
  | failed (symbol : String) (executions : List DepthLegSimulation)
  | completed (current : ℚ) (executions : List DepthLegSimulation)

def simulateLegs (books : String → Option DepthBook) :
    List ArbitrageLeg → ℚ → List DepthLegSimulation → Except DepthRaised Walked
  | [], current, executions => .ok (.completed current executions)
  | leg :: legs, current, executions =>
    match books leg.symbol with
    | none => .ok (.failed leg.symbol executions)
    | some book => do
      let execution ← simulateLeg leg book current
      if execution.complete then simulateLegs books legs execution.outputAmount (executions ++ [execution])
      else .ok (.failed leg.symbol (executions ++ [execution]))

def simulateRouteDepth (route : ArbitrageRoute) (books : String → Option DepthBook) (startAmount : ℚ)
    (startAsset : Option String) : Except DepthRaised DepthRouteSimulation :=
  -- an empty name counts as none
  let asset := (startAsset.filter fun asset => asset ≠ "").getD route.startAsset
  if startAmount ≤ 0 then .error .startNotPositive
  else do
    let legs ← rotatedLegs route asset
    match ← simulateLegs books legs startAmount [] with
    | .failed symbol executions =>
      .ok ⟨route.routeId, asset, startAmount, none, none, false, some symbol, executions⟩
    | .completed current executions =>
      .ok ⟨route.routeId, asset, startAmount, some current, some (edgeBps (current / startAmount)), true, none,
        executions⟩

/-! ## Inside the first level -/

theorem foldl_level_of_done {leg : ArbitrageLeg} {w : Walk} (hw : w.remaining ≤ 0) (levels : List DepthLevel) :
    levels.foldl (Walk.level leg) w = w := by
  induction levels with
  | nil => rfl
  | cons level levels ih =>
    rw [List.foldl_cons, Walk.level, if_pos hw]
    exact ih

/-- An input that the first level can take is taken there, and the walk stops. -/
theorem foldl_level_of_le {leg : ArbitrageLeg} {level : DepthLevel} (levels : List DepthLevel) {inputAmount : ℚ}
    (hpos : 0 < inputAmount) (hle : inputAmount ≤ levelInputCapacity leg level) :
    (level :: levels).foldl (Walk.level leg) (.start inputAmount) =
      { remaining := 0
        filled := inputAmount
        gross := levelGross leg level (executedBase leg level inputAmount)
        tradedBase := executedBase leg level inputAmount
        feeBaseTotal := executedBase leg level inputAmount * leg.feeRateBase
        feeQuoteTotal := executedBase leg level inputAmount * level.price * leg.feeRateQuote
        levelsUsed := 1 } := by
  have hfirst : Walk.level leg (.start inputAmount) level =
      { remaining := 0
        filled := inputAmount
        gross := levelGross leg level (executedBase leg level inputAmount)
        tradedBase := executedBase leg level inputAmount
        feeBaseTotal := executedBase leg level inputAmount * leg.feeRateBase
        feeQuoteTotal := executedBase leg level inputAmount * level.price * leg.feeRateQuote
        levelsUsed := 1 } := by
    simp [Walk.level, Walk.start, hpos.not_ge, min_eq_left hle, hpos]
  rw [List.foldl_cons, hfirst]
  exact foldl_level_of_done le_rfl levels

end Docich.Trading
