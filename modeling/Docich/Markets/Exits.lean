import Docich.Markets.Data

/-!
# Exits of a position

The exit state that a position carries: the best price since it is tracked, the stop, and the exit that was asked for.
`observeExit` advances it on a new mark, `exitReason` asks for an exit, and keeps asking until it is filled.

Neither touches what the position was entered with (`observeExit_entry`, `exitReason_entry`).
-/

namespace Docich.Markets

inductive Reason
  | sessionEnd
  | riskStop
  | stopLoss
  | trailingStop
  | takeProfit
  | maxHold
  | signalReverse

structure ExitState where
  peakPrice : ℚ
  stopPrice : ℚ
  armed : Bool
  requestedReason : Option Reason
  maxNetPnl : ℚ
  trackingFromEntry : Bool
  triggerQuoteTs : Option Time
  triggerStopPrice : Option ℚ

structure Position where
  symbol : String
  side : Side
  qty : ℚ
  entry : ℚ
  entryFee : ℚ
  mark : ℚ
  markTs : Time
  openedAt : Time
  financedAt : Time
  financing : ℚ
  policy : String
  stopBps : Nat
  takeBps : Nat
  maxHoldS : Nat
  exitMode : ExitMode
  trailActivationBps : Nat
  trailDistanceBps : Nat
  exitState : Option ExitState

/-- What a position costs until it is closed. -/
def Position.carried (p : Position) : ℚ := p.entryFee + p.financing

def initialState (p : Position) (fromEntry : Bool) : ExitState where
  peakPrice := p.mark
  stopPrice := p.entry * (1 - p.side.sign * p.stopBps / 10000)
  armed := false
  requestedReason := none
  maxNetPnl := 0
  trackingFromEntry := fromEntry
  triggerQuoteTs := none
  triggerStopPrice := none

/-- Freeze the exit contract of a new position. -/
def initializeExit (p : Position) (policy : Policy) : Position :=
  { p with
    exitMode := policy.exitMode
    trailActivationBps := policy.trailActivationBps
    trailDistanceBps := policy.trailDistanceBps
    exitState := some (initialState p true) }

/-- The state to observe from; a position without one keeps its fixed exits. -/
def trackedState (p : Position) : Except Raised ExitState :=
  match p.exitState with
  | some state => .ok state
  | none =>
    match p.exitMode with
    | .trailing => .error (.value "trailing state missing; cannot reset a protected stop")
    | .fixed => .ok (initialState p false)

/-- Of two prices, the one further in the side's favour. -/
def favoured (side : Side) (x y : ℚ) : ℚ :=
  match side with
  | .long => max x y
  | .short => min x y

/-- Arm the trailing stop and move it after the peak. -/
def advanceStop (p : Position) (state : ExitState) : Except Raised ExitState :=
  match p.exitMode with
  | .fixed => .ok state
  | .trailing =>
    if 5 ≤ p.trailDistanceBps ∧ p.trailDistanceBps ≤ 300 ∧ p.trailDistanceBps < p.trailActivationBps ∧
        p.trailActivationBps ≤ 600 then
      let armed := state.armed ||
        decide (p.trailActivationBps ≤ (state.peakPrice / p.entry - 1) * p.side.sign * 10000)
      let proposed := state.peakPrice * (1 - p.side.sign * p.trailDistanceBps / 10000)
      let stop := if armed then favoured p.side state.stopPrice proposed else state.stopPrice
      .ok { state with armed := armed, stopPrice := stop }
    else
      .error (.value "invalid persisted trail policy")

/-- What closing at the mark would net. -/
def netAtMark (p : Position) (feeBps slippageBps : ℚ) : ℚ :=
  let exitPx := p.mark * (1 - p.side.sign * slippageBps / 10000)
  (exitPx - p.entry) * p.qty * p.side.sign - p.qty * exitPx * feeBps / 10000 - p.entryFee - p.financing

def observeExit (p : Position) (feeBps slippageBps : ℚ) : Except Raised Position := do
  let state ← trackedState p
  if p.mark ≤ 0 ∨ p.entry ≤ 0 ∨ p.qty ≤ 0 ∨ state.peakPrice ≤ 0 ∨ state.stopPrice ≤ 0 then
    throw (.value "invalid persisted exit prices")
  let state ← advanceStop p { state with peakPrice := favoured p.side state.peakPrice p.mark }
  pure { p with exitState := some { state with
    maxNetPnl := max 0 (max state.maxNetPnl (netAtMark p feeBps slippageBps)) } }

/-- The first reason to leave, in the order of their precedence. -/
def firstReason (h : Host) (p : Position) (state : ExitState) (now : Time) (direction : Option Side)
    (forceFlat riskStopped : Bool) : Option Reason :=
  let signedReturn := (p.mark / p.entry - 1) * p.side.sign * 10000
  if forceFlat then some .sessionEnd
  else if riskStopped then some .riskStop
  else if signedReturn ≤ -p.stopBps then some .stopLoss
  else if p.exitMode = .trailing ∧ state.armed ∧ (p.mark - state.stopPrice) * p.side.sign ≤ 0 then some .trailingStop
  else if p.exitMode = .fixed ∧ p.takeBps ≤ signedReturn then some .takeProfit
  else if p.maxHoldS ≤ h.elapsed now p.openedAt then some .maxHold
  else if direction ≠ none ∧ direction ≠ some p.side then some .signalReverse
  else none

/-- Ask for an exit, or repeat the exit that was asked for. -/
def exitReason (h : Host) (p : Position) (state : ExitState) (now : Time) (direction : Option Side)
    (forceFlat riskStopped : Bool) : Position × Option Reason :=
  match state.requestedReason with
  | some reason => (p, some reason)
  | none =>
    match firstReason h p state now direction forceFlat riskStopped with
    | none => (p, none)
    | some reason =>
      ({ p with exitState := some { state with
          requestedReason := some reason, triggerQuoteTs := some p.markTs, triggerStopPrice := some state.stopPrice } },
        some reason)

/-! ## Exit details of a fill -/

structure ExitDetails where
  exitMode : ExitMode
  maxNetPnl : ℚ
  peakToExitGiveback : ℚ
  mfeTrackingFromEntry : Bool
  triggerQuoteTs : Time
  triggerStopPrice : ℚ

def fillExitDetails (p : Position) (netPnl : ℚ) : Except Raised ExitDetails :=
  match p.exitState with
  | none => .error (.key "exit_state")
  | some state =>
    match state.triggerQuoteTs, state.triggerStopPrice with
    | some ts, some stop =>
      .ok { exitMode := p.exitMode, maxNetPnl := state.maxNetPnl,
            peakToExitGiveback := max 0 (state.maxNetPnl - netPnl),
            mfeTrackingFromEntry := state.trackingFromEntry, triggerQuoteTs := ts, triggerStopPrice := stop }
    | none, _ => .error (.key "trigger_quote_ts")
    | some _, none => .error (.key "trigger_stop_price")

structure ExitStats where
  closedTrades : Nat
  wins : Nat
  netPnl : ℚ
  peakToExitGiveback : ℚ
  mfeCompleteTrades : Nat

def ExitStats.zero : ExitStats := ⟨0, 0, 0, 0, 0⟩

def recordExitStats (stats : ExitStats) (netPnl : ℚ) (details : ExitDetails) : ExitStats where
  closedTrades := stats.closedTrades + 1
  wins := stats.wins + if 0 < netPnl then 1 else 0
  netPnl := stats.netPnl + netPnl
  peakToExitGiveback := stats.peakToExitGiveback + details.peakToExitGiveback
  mfeCompleteTrades := stats.mfeCompleteTrades + if details.mfeTrackingFromEntry then 1 else 0

/-! ## What observing leaves alone -/

/-- Two versions of a position that differ in their exit state only. -/
def SameEntry (p p' : Position) : Prop := p' = { p with exitState := p'.exitState }

theorem observeExit_entry {p p' : Position} {feeBps slippageBps : ℚ} (h : observeExit p feeBps slippageBps = .ok p') :
    SameEntry p p' := by
  unfold observeExit at h
  cases ht : trackedState p with
  | error e =>
    rw [ht] at h
    cases h
  | ok state =>
    rw [ht] at h
    simp only [bind, Except.bind] at h
    split at h
    · cases h
    · simp only [pure, Except.pure] at h
      split at h
      · cases h
      · cases h
        rfl

theorem exitReason_entry (h : Host) (p : Position) (state : ExitState) (now : Time) (direction : Option Side)
    (forceFlat riskStopped : Bool) : SameEntry p (exitReason h p state now direction forceFlat riskStopped).1 := by
  unfold exitReason
  split
  · rfl
  · split
    · rfl
    · rfl

end Docich.Markets
