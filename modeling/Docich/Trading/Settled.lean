import Docich.Ladder
import Docich.Trading.Settlement

/-!
# What a settlement keeps

* `settleLeg_ok`, `settleLeg_error`: one leg keeps its input, or misses a minimum of its market.
* `simulateLeg_complete`: where the depth walk completes a leg, it returns what an order of the leg's whole reach returns.
* `settlement_consistent` says the first of every settlement, and that it agrees with the depth walk where no step bites.
-/

namespace Docich.Trading

open List Ladder Option Except

/-! ## Levels as ladders -/

/-- What a unit of the base asset takes of the input. -/
def ArbitrageLeg.unit (leg : ArbitrageLeg) (level : DepthLevel) : ℚ :=
  match leg.side with
  | .sell => 1 + leg.feeRateBase
  | .buy => level.price * (1 + leg.feeRateQuote)

/-- Fees are not negative. -/
structure ArbitrageLeg.Priced (leg : ArbitrageLeg) : Prop where
  quote : 0 ≤ leg.feeRateQuote
  base : 0 ≤ leg.feeRateBase

section Ladder

variable {leg : ArbitrageLeg} {levels : List DepthLevel} {book : DepthBook} {current q : ℚ}

theorem unit_sell (hs : leg.side = .sell) : leg.unit = fun _ => 1 + leg.feeRateBase := by
  funext level
  unfold ArbitrageLeg.unit
  rw [hs]

theorem unit_buy (hs : leg.side = .buy) : leg.unit = fun level => level.price * (1 + leg.feeRateQuote) := by
  funext level
  unfold ArbitrageLeg.unit
  rw [hs]

theorem ArbitrageLeg.Priced.positive (h : leg.Priced) (levels : List DepthLevel) :
    Ladder.Positive leg.unit DepthLevel.amount levels where
  unit := by
    intro level _
    have hquote := h.quote
    have hbase := h.base
    unfold ArbitrageLeg.unit
    split
    · linarith
    · exact mul_pos level.price_pos (by linarith)
  amount := fun level _ => level.amount_pos

/-- The gross value of an order on the levels. -/
abbrev grossOf (levels : List DepthLevel) (q : ℚ) : ℚ := Ladder.cost DepthLevel.price DepthLevel.amount levels q

theorem grossOf_zero (levels : List DepthLevel) : grossOf levels 0 = 0 :=
  cost_zero fun level _ => level.amount_pos.le

theorem affordAsks_eq {quoteFee remaining total : ℚ} (hfee : 0 ≤ quoteFee) (hr : 0 ≤ remaining) :
    affordAsks quoteFee levels remaining total =
      total + Ladder.reach (fun v => v.price * (1 + quoteFee)) DepthLevel.amount levels remaining := by
  induction levels generalizing remaining total with
  | nil => simp [affordAsks, Ladder.reach]
  | cons level levels ih =>
    have hpos : Ladder.Positive (fun v : DepthLevel => v.price * (1 + quoteFee)) DepthLevel.amount (level :: levels) :=
      ⟨fun v _ => mul_pos v.price_pos (by linarith), fun v _ => v.amount_pos⟩
    have hunit : 0 < level.price * (1 + quoteFee) := hpos.unit level mem_cons_self
    unfold affordAsks
    dsimp only
    split
    · next htake =>
      have hzero : remaining = 0 := by
        rcases min_le_iff.mp htake with h | h
        · exact absurd h (not_le.mpr level.amount_pos)
        · apply le_antisymm ?_ hr
          rwa [div_le_iff₀ hunit, zero_mul] at h
      rw [hzero, reach_zero hpos, add_zero]
    · have hrest : 0 ≤ remaining - min level.amount (remaining / (level.price * (1 + quoteFee))) *
          (level.price * (1 + quoteFee)) := sub_nonneg.mpr (take_cost_le hpos)
      rw [ih hrest, reach_cons]
      exact add_assoc _ _ _

/-- What a leg can order is what its input reaches on its levels. -/
theorem maxAffordableBase_eq (h : leg.Priced) (hc : 0 ≤ current) : maxAffordableBase leg book current =
    Ladder.reach leg.unit DepthLevel.amount (legLevels leg book) current := by
  have hpos := h.positive (legLevels leg book)
  have hbase := h.base
  unfold maxAffordableBase
  cases hs : leg.side with
  | sell =>
    have hunit := unit_sell hs
    rw [hunit] at hpos ⊢
    rw [reach_const hpos (by linarith) hc]
    simp [legLevels, hs]
  | buy =>
    have hunit := unit_buy hs
    rw [affordAsks_eq h.quote hc, zero_add, hunit]
    simp [legLevels, hs]

/-- Without an input nothing can be ordered. -/
theorem maxAffordableBase_nonpos (h : leg.Priced) (hc : current ≤ 0) : maxAffordableBase leg book current ≤ 0 := by
  have hbase := h.base
  have hquote := h.quote
  unfold maxAffordableBase
  split
  · exact (min_le_left _ _).trans (div_nonpos_of_nonpos_of_nonneg hc (by linarith))
  · cases book.asks with
    | nil => exact le_rfl
    | cons level levels =>
      have hunit : 0 < level.price * (1 + leg.feeRateQuote) := mul_pos level.price_pos (by linarith)
      unfold affordAsks
      rw [if_pos ((min_le_right _ _).trans (div_nonpos_of_nonpos_of_nonneg hc hunit.le))]

/-- An order within the depth is executed in full. -/
theorem executeLevels_eq {gross : ℚ} {used : ℕ} (hq : 0 ≤ q) (hle : q ≤ (levels.map DepthLevel.amount).sum) :
    (executeLevels levels q gross used).1 = 0 ∧
      (executeLevels levels q gross used).2.1 = gross + grossOf levels q := by
  induction levels generalizing q gross used with
  | nil =>
    have hzero : q = 0 := le_antisymm hle hq
    simp [executeLevels, hzero, grossOf, Ladder.cost]
  | cons level levels ih =>
    unfold executeLevels
    by_cases hdone : q ≤ 0
    · have hzero : q = 0 := le_antisymm hdone hq
      rw [if_pos hdone, hzero, grossOf_zero]
      simp
    · have htake : 0 < min q level.amount := lt_min (not_le.mp hdone) level.amount_pos
      rw [if_neg hdone]
      rw [if_pos htake]
      have hrest := sub_min_le_total (fun v _ => v.amount_pos.le) hle
      obtain ⟨hleft, hgross⟩ := @ih (q - min q level.amount) (gross + min q level.amount * level.price) (used + 1)
        (sub_nonneg.mpr (min_le_left _ _)) hrest
      refine ⟨hleft, ?_⟩
      rw [hgross, grossOf, grossOf, cost_cons]
      ring

end Ladder

/-! ## One leg keeps its input -/

section Leg

variable {g : GatedLeg} {current : ℚ}

theorem roundDownTo_pos {value step : ℚ} (hs : 0 < step) (h : 0 < roundDownTo value step) :
    roundDownTo value step = roundDown step value ∧ 0 < value := by
  unfold roundDownTo at h ⊢
  by_cases hv : 0 ≤ value
  · rw [if_pos hv] at h ⊢
    exact ⟨rfl, h.trans_le (roundDown_le hs value)⟩
  · rw [if_neg hv] at h
    have hneg := roundDown_nonneg hs (by linarith : 0 ≤ -value)
    linarith

theorem roundDownTo_of_multiple {value step : ℚ} (hs : 0 < step) (hv : 0 ≤ value) (h : IsMultiple step value) :
    roundDownTo value step = value := by
  unfold roundDownTo
  rw [if_pos hv, roundDown_of_multiple hs h]

theorem GatedLeg.amountStep_pos (g : GatedLeg) : 0 < g.amountStep := g.market.amountStep_pos _ g.amountStep_eq

/-- What an order returns. -/
def orderOutput (leg : ArbitrageLeg) (book : DepthBook) (q : ℚ) : ℚ :=
  match leg.side with
  | .buy => q - q * leg.feeRateBase
  | .sell => grossOf book.bids q - grossOf book.bids q * leg.feeRateQuote

/-- An order within what the input affords is executed in full, returns its output, and consumes no more than the
input. -/
theorem executeBaseOrder_ok {leg : ArbitrageLeg} {book : DepthBook} {q : ℚ} (h : leg.Priced) (hc : 0 ≤ current)
    (hq : 0 ≤ q) (hle : q ≤ maxAffordableBase leg book current) :
    (executeBaseOrder leg book q).complete = true ∧
      (executeBaseOrder leg book q).output = orderOutput leg book q ∧
      (executeBaseOrder leg book q).consumed = Ladder.cost leg.unit DepthLevel.amount (legLevels leg book) q ∧
      (executeBaseOrder leg book q).consumed ≤ current := by
  have hpos := h.positive (legLevels leg book)
  rw [maxAffordableBase_eq h hc] at hle
  obtain ⟨hleft, hgross⟩ := @executeLevels_eq (legLevels leg book) q 0 0 hq (hle.trans reach_le_total)
  have hcost := cost_le hpos hc hle
  unfold executeBaseOrder orderOutput
  dsimp only
  rw [hleft, hgross, if_neg (lt_irrefl 0), zero_add]
  cases hs : leg.side with
  | buy =>
    have hunit := unit_buy hs
    have hconsumed : grossOf (legLevels leg book) q + grossOf (legLevels leg book) q * leg.feeRateQuote =
        Ladder.cost leg.unit DepthLevel.amount (legLevels leg book) q := by
      rw [hunit, cost_scale]
      ring
    exact ⟨rfl, rfl, hconsumed, hconsumed.trans_le hcost⟩
  | sell =>
    have hlevels : legLevels leg book = book.bids := by simp [legLevels, hs]
    have hunit := unit_sell hs
    have hconsumed : q + q * leg.feeRateBase =
        Ladder.cost leg.unit DepthLevel.amount (legLevels leg book) q := by
      rw [hunit, cost_const (fun v _ => v.amount_pos.le) hq (hle.trans reach_le_total)]
      ring
    exact ⟨rfl, by rw [hlevels], hconsumed, hconsumed.trans_le hcost⟩

/-- What a settled leg keeps. -/
structure SettledLeg (g : GatedLeg) (current : ℚ) (x : SettlementLeg) : Prop where
  symbol : x.symbol = g.leg.symbol
  input : x.inputAmount = current
  order : x.orderBaseAmount = g.order current
  balance : x.consumedInput + x.residualInput = x.inputAmount
  residual : 0 ≤ x.residualInput
  order_pos : 0 < x.orderBaseAmount
  steps : IsMultiple g.amountStep x.orderBaseAmount
  minimum : g.minAmount ≤ x.orderBaseAmount
  output : x.outputAmount = orderOutput g.leg g.book.toDepthBook x.orderBaseAmount
  consumed : x.consumedInput =
    Ladder.cost g.leg.unit DepthLevel.amount (legLevels g.leg g.book.toDepthBook) x.orderBaseAmount

/-- An order of at least a step is within what the input affords. -/
theorem GatedLeg.order_le (h : g.leg.Priced) (hpos : 0 < g.order current) :
    0 ≤ current ∧ g.order current ≤ maxAffordableBase g.leg g.book.toDepthBook current ∧
      IsMultiple g.amountStep (g.order current) := by
  obtain ⟨hround, hraw⟩ := roundDownTo_pos g.amountStep_pos hpos
  have hcurrent : 0 ≤ current := by
    by_contra hneg
    exact absurd hraw (not_lt.mpr (maxAffordableBase_nonpos h (not_le.mp hneg).le))
  unfold GatedLeg.order
  rw [hround]
  exact ⟨hcurrent, roundDown_le g.amountStep_pos _, roundDown_multiple _ _⟩

theorem settleLeg_ok (h : g.leg.Priced) {x : SettlementLeg} (hx : settleLeg g current = .ok x) :
    SettledLeg g current x := by
  unfold settleLeg at hx
  dsimp only at hx
  split at hx
  · cases hx
  · next hmin =>
    obtain ⟨hpos, hle⟩ := not_or.mp hmin
    obtain ⟨hcurrent, horder, hsteps⟩ := GatedLeg.order_le h (not_le.mp hpos)
    obtain ⟨hcomplete, houtput, hconsumed, hwithin⟩ :=
      executeBaseOrder_ok h hcurrent (not_le.mp hpos).le horder
    rw [if_neg (by simp [hcomplete])] at hx
    split at hx
    · cases hx
    · split at hx
      · cases hx
      · next hresidual =>
        cases hx
        constructor
        · rfl
        · rfl
        · rfl
        · exact add_sub_cancel _ _
        · exact not_lt.mp hresidual
        · exact not_le.mp hpos
        · exact hsteps
        · exact not_lt.mp hle
        · exact houtput
        · exact hconsumed

/-- Only a minimum of the market ends a leg. -/
theorem settleLeg_error (h : g.leg.Priced) {reason : String} (hx : settleLeg g current = .error reason) :
    reason = "below_min_amount" ∨ reason = "below_min_cost" := by
  unfold settleLeg at hx
  dsimp only at hx
  split at hx
  · cases hx
    exact .inl rfl
  · next hmin =>
    obtain ⟨hpos, -⟩ := not_or.mp hmin
    obtain ⟨hcurrent, horder, -⟩ := GatedLeg.order_le h (not_le.mp hpos)
    obtain ⟨hcomplete, -, -, hwithin⟩ := executeBaseOrder_ok h hcurrent (not_le.mp hpos).le horder
    rw [if_neg (by simp [hcomplete])] at hx
    split at hx
    · cases hx
      exact .inr rfl
    · rw [if_neg (not_lt.mpr (sub_nonneg.mpr hwithin))] at hx
      cases hx

end Leg

/-! ## The depth walk on ladders -/

section Walk

variable {leg : ArbitrageLeg} {levels : List DepthLevel}

theorem levelInputCapacity_eq (level : DepthLevel) : levelInputCapacity leg level = level.amount * leg.unit level := by
  unfold levelInputCapacity
  cases hs : leg.side with
  | sell => rw [unit_sell hs]
  | buy => rw [unit_buy hs, mul_assoc]

theorem executedBase_eq (level : DepthLevel) (q : ℚ) : executedBase leg level q = q / leg.unit level := by
  unfold executedBase
  cases hs : leg.side with
  | sell => rw [unit_sell hs]
  | buy => rw [unit_buy hs]

variable (h : leg.Priced)

include h in
/-- A level takes of the input what it takes of a budget. -/
theorem level_eq {w : Walk} (level : DepthLevel) (hw : 0 < w.remaining) :
    let t := Ladder.take leg.unit DepthLevel.amount level w.remaining
    Walk.level leg w level =
      { remaining := w.remaining - t * leg.unit level
        filled := w.filled + t * leg.unit level
        gross := w.gross + levelGross leg level t
        tradedBase := w.tradedBase + t
        feeBaseTotal := w.feeBaseTotal + t * leg.feeRateBase
        feeQuoteTotal := w.feeQuoteTotal + t * level.price * leg.feeRateQuote
        levelsUsed := w.levelsUsed + 1 } := by
  intro t
  have hunit : 0 < leg.unit level := (h.positive [level]).unit level mem_cons_self
  have htake : min w.remaining (levelInputCapacity leg level) = t * leg.unit level := by
    have hdiv : w.remaining / leg.unit level * leg.unit level = w.remaining := div_mul_cancel₀ _ hunit.ne'
    rw [levelInputCapacity_eq, min_comm]
    change _ = min level.amount (w.remaining / leg.unit level) * leg.unit level
    rw [min_mul_of_nonneg _ _ hunit.le, hdiv]
  have hexecuted : executedBase leg level (t * leg.unit level) = t := by
    rw [executedBase_eq]
    exact mul_div_cancel_right₀ t hunit.ne'
  have hpos : 0 < t * leg.unit level := by
    rw [← htake, levelInputCapacity_eq]
    exact lt_min hw (mul_pos level.amount_pos hunit)
  unfold Walk.level
  rw [if_neg (not_le.mpr hw)]
  dsimp only
  rw [htake, hexecuted, if_pos hpos]

/-- What a walk over the levels adds to its totals. -/
structure WalkedOver (leg : ArbitrageLeg) (levels : List DepthLevel) (w w' : Walk) : Prop where
  remaining : w'.remaining = Ladder.left leg.unit DepthLevel.amount levels w.remaining
  gross : w'.gross = w.gross + match leg.side with
    | .sell => grossOf levels (Ladder.reach leg.unit DepthLevel.amount levels w.remaining)
    | .buy => Ladder.reach leg.unit DepthLevel.amount levels w.remaining
  feeBase : w'.feeBaseTotal =
    w.feeBaseTotal + Ladder.reach leg.unit DepthLevel.amount levels w.remaining * leg.feeRateBase
  feeQuote : w'.feeQuoteTotal = w.feeQuoteTotal +
    grossOf levels (Ladder.reach leg.unit DepthLevel.amount levels w.remaining) * leg.feeRateQuote

include h

theorem walkedOver_done {w : Walk} (hw : w.remaining = 0) : WalkedOver leg levels w w := by
  have hreach : Ladder.reach leg.unit DepthLevel.amount levels w.remaining = 0 := by
    rw [hw, reach_zero (h.positive levels)]
  constructor
  · rw [hw, left_zero (h.positive levels)]
  · rw [hreach, grossOf_zero]
    split <;> simp
  · rw [hreach, zero_mul, add_zero]
  · rw [hreach, grossOf_zero, zero_mul, add_zero]

theorem foldl_level_walkedOver {w : Walk} (hw : 0 ≤ w.remaining) :
    WalkedOver leg levels w (levels.foldl (Walk.level leg) w) := by
  induction levels generalizing w with
  | nil =>
    constructor
    · rfl
    · simp only [Ladder.reach, grossOf, Ladder.cost]
      split <;> exact (add_zero _).symm
    · simp [Ladder.reach]
    · simp [grossOf, Ladder.cost]
  | cons level levels ih =>
    by_cases hdone : w.remaining ≤ 0
    · rw [foldl_level_of_done hdone]
      exact walkedOver_done h (le_antisymm hdone hw)
    · have hpos := h.positive (level :: levels)
      have hlevel := level_eq h level (not_le.mp hdone)
      have hrest := @ih (Walk.level leg w level) (by
        rw [hlevel]
        exact sub_nonneg.mpr (take_cost_le hpos))
      have hcost := @Ladder.cost_reach_cons _ _ _ _ _ DepthLevel.price _ _ _ _ w.remaining hpos
      rw [foldl_cons]
      rw [hlevel] at hrest ⊢
      constructor
      · exact hrest.remaining
      · rw [hrest.gross]
        unfold grossOf levelGross
        rw [hcost]
        cases hs : leg.side with
        | sell => ring
        | buy =>
          rw [reach_cons]
          ring
      · rw [hrest.feeBase, reach_cons]
        ring
      · rw [hrest.feeQuote]
        unfold grossOf
        rw [hcost]
        ring

/-- A leg that the walk completes returns what the order of its whole reach returns, and that order consumes the
input. -/
theorem simulateLeg_complete {book : DepthBook} {current : ℚ} {d : DepthLegSimulation}
    (hd : simulateLeg leg book current = .ok d) (hcomplete : d.complete = true) :
    d.inputAmount = current ∧ 0 < current ∧
      d.outputAmount = orderOutput leg book (maxAffordableBase leg book current) ∧
      Ladder.cost leg.unit DepthLevel.amount (legLevels leg book) (maxAffordableBase leg book current) = current := by
  unfold simulateLeg at hd
  split at hd
  · cases hd
  · next hpos =>
    have hpos : 0 < current := not_le.mp hpos
    have hwalked := @foldl_level_walkedOver leg (legLevels leg book) h (.start current) hpos.le
    have hstart : (Walk.start current).remaining = current := rfl
    cases hd
    have hleft : Ladder.left leg.unit DepthLevel.amount (legLevels leg book) current = 0 := by
      have hle := of_decide_eq_true hcomplete
      rw [hwalked.remaining, hstart] at hle
      exact le_antisymm hle (left_nonneg (h.positive _) hpos.le)
    rw [maxAffordableBase_eq h hpos.le]
    refine ⟨rfl, hpos, ?_, ?_⟩
    · dsimp only
      rw [hwalked.gross, hwalked.feeBase, hwalked.feeQuote, hstart]
      unfold orderOutput
      cases hs : leg.side with
      | sell =>
        simp [Walk.start, legLevels, hs]
      | buy =>
        simp [Walk.start, legLevels, hs]
    · rw [cost_reach (h.positive _) hpos.le, hleft, sub_zero]

end Walk

/-! ## The gate and the failures -/

section Gate

variable {e : SettlementInputs}

/-- What the gate looked up. -/
structure GatedLeg.Found (e : SettlementInputs) (g : GatedLeg) : Prop where
  market : e.markets g.leg.symbol = some g.market
  book : e.books g.leg.symbol = some g.book

/-- No refusal of the gate or of a minimum starts as the failures of an execution do. -/
def Refusal (reason : String) : Prop := reason.toList.head? ≠ some 'i'

instance (reason : String) : Decidable (Refusal reason) := inferInstanceAs (Decidable (_ ≠ _))

theorem refusal_append {start : String} (text : String) (h : Refusal start) (hne : start.toList ≠ []) :
    Refusal (start ++ text) := by
  unfold Refusal at h ⊢
  rw [String.toList_append, List.head?_append_of_ne_nil _ hne]
  exact h

theorem Refusal.ne {reason : String} (h : Refusal reason) :
    reason ≠ "insufficient_depth" ∧ reason ≠ "insufficient_input" := by
  constructor
  · rintro rfl
    exact h (by decide)
  · rintro rfl
    exact h (by decide)

/-- What the gate says of a leg. -/
def Gated (e : SettlementInputs) (leg : ArbitrageLeg) : Except String GatedLeg → Prop
  | .ok g => g.leg = leg ∧ g.Found e
  | .error reason => Refusal reason

theorem gateLeg_gated (leg : ArbitrageLeg) : Gated e leg (gateLeg e leg) := by
  have hunavailable : Refusal "market_unavailable" := by decide
  unfold gateLeg
  split
  · exact hunavailable
  · next market hmarket =>
    split
    · exact hunavailable
    · split
      · next amountStep minAmount hs hm =>
        split
        · have hdisabled : Refusal "market_order_disabled" := by decide
          exact hdisabled
        · split
          · have hmissing : Refusal "circuit_status_missing" := by decide
            exact hmissing
          · next status _ =>
            dsimp only
            split
            · have hstale : Refusal "circuit_status_stale" := by decide
              exact hstale
            · split
              · exact refusal_append _ (by decide : Refusal "circuit_break:") (by decide)
              · split
                · exact refusal_append _ (by decide : Refusal "fee_type:") (by decide)
                · split
                  · have hmissing : Refusal "depth_missing" := by decide
                    exact hmissing
                  · next book hbook =>
                    split
                    · have hstale : Refusal "depth_stale" := by decide
                      exact hstale
                    · exact ⟨rfl, hmarket, hbook⟩
      · have hmissing : Refusal "market_constraints_missing" := by decide
        exact hmissing

variable {leg : ArbitrageLeg} {legs : List ArbitrageLeg}

theorem gateLeg_ok {g : GatedLeg} (h : gateLeg e leg = .ok g) : g.leg = leg ∧ g.Found e := by
  have hgated := @gateLeg_gated e leg
  rwa [h] at hgated

theorem gateLeg_error {reason : String} (h : gateLeg e leg = .error reason) : Refusal reason := by
  have hgated := @gateLeg_gated e leg
  rwa [h] at hgated

theorem gateLegs_ok {gs : List GatedLeg} (h : gateLegs e legs = .ok gs) :
    gs.map GatedLeg.leg = legs ∧ ∀ g ∈ gs, g.Found e := by
  induction legs generalizing gs with
  | nil =>
    cases h
    exact ⟨rfl, fun _ hg => nomatch hg⟩
  | cons leg legs ih =>
    unfold gateLegs at h
    cases hg : gateLeg e leg with
    | error reason =>
      rw [hg] at h
      cases h
    | ok g =>
      rw [hg] at h
      cases hrest : gateLegs e legs with
      | error r =>
        rw [hrest] at h
        cases h
      | ok rest =>
        rw [hrest] at h
        cases h
        obtain ⟨rfl, hfound⟩ := gateLeg_ok hg
        obtain ⟨rfl, hall⟩ := ih hrest
        refine ⟨rfl, fun x hx => ?_⟩
        rcases mem_cons.mp hx with rfl | hx
        · exact hfound
        · exact hall x hx

theorem gateLegs_error {failure : String × String} (h : gateLegs e legs = .error failure) :
    Refusal failure.2 := by
  induction legs with
  | nil => cases h
  | cons leg legs ih =>
    unfold gateLegs at h
    cases hg : gateLeg e leg with
    | error reason =>
      rw [hg] at h
      cases h
      exact gateLeg_error hg
    | ok g =>
      rw [hg] at h
      cases hrest : gateLegs e legs with
      | error r =>
        rw [hrest] at h
        cases h
        exact ih hrest
      | ok rest =>
        rw [hrest] at h
        cases h

end Gate

/-! ## Settlements -/

section Settle

variable {e : SettlementInputs}

/-- What every executed leg of a settlement keeps. -/
structure SettlementLeg.Kept (e : SettlementInputs) (x : SettlementLeg) : Prop where
  balance : x.consumedInput + x.residualInput = x.inputAmount
  residual : 0 ≤ x.residualInput
  order : ∃ market step minAmount, e.markets x.symbol = some market ∧ market.amountStep = some step ∧
    market.minAmount = some minAmount ∧ IsMultiple step x.orderBaseAmount ∧ 0 < x.orderBaseAmount ∧
      minAmount ≤ x.orderBaseAmount

variable {x : SettlementLeg} {legs : List ArbitrageLeg} {startAmount : ℚ}

theorem SettledLeg.kept {g : GatedLeg} {current : ℚ} (h : SettledLeg g current x)
    (hg : g.Found e) : x.Kept e where
  balance := h.balance
  residual := h.residual
  order := ⟨g.market, g.amountStep, g.minAmount, by rw [h.symbol]; exact hg.market, g.amountStep_eq, g.minAmount_eq,
    h.steps, h.order_pos, h.minimum⟩

variable {gs : List GatedLeg}

/-- The legs are kept, and only a minimum ends them. -/
theorem settleLegs_kept (hgs : ∀ g ∈ gs, g.Found e ∧ g.leg.Priced) {current : ℚ}
    {residuals : List (String × ℚ)} {executions : List SettlementLeg} (hx : ∀ x ∈ executions, x.Kept e) :
    (∀ x ∈ (settleLegs gs current residuals executions).executions, x.Kept e) ∧
      ∀ failure, (settleLegs gs current residuals executions).failed = some failure → Refusal failure.2 := by
  induction gs generalizing current residuals executions with
  | nil => exact ⟨hx, fun _ h => nomatch h⟩
  | cons g gs ih =>
    obtain ⟨hfound, hpriced⟩ := hgs g mem_cons_self
    unfold settleLegs
    cases hleg : settleLeg g current with
    | error reason =>
      refine ⟨hx, fun failure h => ?_⟩
      cases h
      have hmin : Refusal reason := by
        rcases settleLeg_error hpriced hleg with rfl | rfl <;> decide
      exact hmin
    | ok x =>
      apply ih (fun g' hg' => hgs g' (mem_cons_of_mem _ hg'))
      intro y hy
      rcases mem_append.mp hy with hy | hy
      · exact hx y hy
      · rw [mem_singleton.mp hy]
        exact (settleLeg_ok hpriced hleg).kept hfound

/-! ### Agreement with the depth walk -/

/-- The affordable base amounts of the walked legs are whole steps already. -/
def OnSteps (e : SettlementInputs) (legs : List ArbitrageLeg) (walked : List DepthLegSimulation) : Prop :=
  ∀ p ∈ legs.zip walked, ∀ market book step, e.markets p.1.symbol = some market → e.books p.1.symbol = some book →
    market.amountStep = some step → IsMultiple step (maxAffordableBase p.1 book.toDepthBook p.2.inputAmount)

/-- A leg without a residual that returns what the walk does. -/
theorem settleLeg_agrees {g : GatedLeg} {current : ℚ} {d : DepthLegSimulation} (h : g.leg.Priced)
    (hx : settleLeg g current = .ok x) (hd : simulateLeg g.leg g.book.toDepthBook current = .ok d)
    (hcomplete : d.complete = true)
    (hstep : IsMultiple g.amountStep (maxAffordableBase g.leg g.book.toDepthBook current)) :
    x.outputAmount = d.outputAmount ∧ x.residualInput = 0 := by
  obtain ⟨-, hpos, houtput, hcost⟩ := simulateLeg_complete h hd hcomplete
  have hsettled := settleLeg_ok h hx
  have hraw : 0 ≤ maxAffordableBase g.leg g.book.toDepthBook current := by
    rw [maxAffordableBase_eq h hpos.le]
    exact reach_nonneg (h.positive _) hpos.le
  have horder : x.orderBaseAmount = maxAffordableBase g.leg g.book.toDepthBook current :=
    hsettled.order.trans (roundDownTo_of_multiple g.amountStep_pos hraw hstep)
  constructor
  · rw [hsettled.output, horder, houtput]
  · have hbalance := hsettled.balance
    rw [hsettled.consumed, horder, hcost, hsettled.input] at hbalance
    linarith

/-- Leg by leg the settlement returns what the walk does, and no leg has a residual. -/
theorem settleLegs_agrees (hgs : ∀ g ∈ gs, g.Found e ∧ g.leg.Priced) {current last : ℚ}
    {executions : List SettlementLeg} {done walked : List DepthLegSimulation}
    (hd : simulateLegs (fun symbol => (e.books symbol).map DatedBook.toDepthBook) (gs.map GatedLeg.leg) current done =
      .ok (.completed last walked)) :
    ∃ new, walked = done ++ new ∧ (OnSteps e (gs.map GatedLeg.leg) new →
      ∃ xs, (settleLegs gs current [] executions).executions = executions ++ xs ∧
        (settleLegs gs current [] executions).residuals = [] ∧
        xs.map SettlementLeg.outputAmount <+: new.map DepthLegSimulation.outputAmount ∧
        ((settleLegs gs current [] executions).failed = none →
          xs.map SettlementLeg.outputAmount = new.map DepthLegSimulation.outputAmount ∧
            (settleLegs gs current [] executions).current = last)) := by
  induction gs generalizing current executions done with
  | nil =>
    cases hd
    refine ⟨[], (append_nil _).symm, fun _ => ⟨[], (append_nil _).symm, rfl, nil_prefix, fun _ => ?_⟩⟩
    exact ⟨rfl, rfl⟩
  | cons g gs ih =>
    obtain ⟨hfound, hpriced⟩ := hgs g mem_cons_self
    have hgs' := fun g' hg' => hgs g' (mem_cons_of_mem _ hg')
    rw [map_cons] at hd
    unfold simulateLegs at hd
    rw [hfound.book] at hd
    dsimp only [map_some] at hd
    cases hleg : simulateLeg g.leg g.book.toDepthBook current with
    | error r =>
      rw [hleg] at hd
      cases hd
    | ok d =>
      rw [hleg] at hd
      by_cases hcomplete : d.complete = true
      · have hrest : simulateLegs (fun symbol => (e.books symbol).map DatedBook.toDepthBook) (gs.map GatedLeg.leg)
            d.outputAmount (done ++ [d]) = .ok (.completed last walked) := by
          simpa [bind, Except.bind, hcomplete] using hd
        have hstep : ∀ {new : List DepthLegSimulation}, OnSteps e (g.leg :: gs.map GatedLeg.leg) (d :: new) →
            IsMultiple g.amountStep (maxAffordableBase g.leg g.book.toDepthBook current) := by
          intro new hsteps
          have hfirst := hsteps (g.leg, d) mem_cons_self g.market g.book g.amountStep hfound.market hfound.book
            g.amountStep_eq
          rwa [(simulateLeg_complete hpriced hleg hcomplete).1] at hfirst
        unfold settleLegs
        cases hsettle : settleLeg g current with
        | error reason =>
          obtain ⟨new, hwalked, -⟩ := @ih hgs' d.outputAmount executions (done ++ [d]) hrest
          refine ⟨d :: new, by rw [hwalked, append_assoc]; rfl, fun _ =>
            ⟨[], (append_nil _).symm, rfl, ?_, ?_⟩⟩
          · exact nil_prefix
          · intro h
            cases h
        | ok x =>
          obtain ⟨new, hwalked, hagrees⟩ := @ih hgs' d.outputAmount (executions ++ [x]) (done ++ [d]) hrest
          refine ⟨d :: new, by rw [hwalked, append_assoc]; rfl, fun hsteps => ?_⟩
          obtain ⟨houtput, hresidual⟩ := settleLeg_agrees hpriced hsettle hleg hcomplete (hstep hsteps)
          have hnone : addResidual [] g.leg.fromAsset x.residualInput = [] := by
            unfold addResidual
            rw [hresidual, if_neg (lt_irrefl 0)]
          dsimp only
          rw [hnone, houtput]
          obtain ⟨xs, hexecutions, hresiduals, hstart, hlast⟩ :=
            hagrees fun p hp => hsteps p (mem_cons_of_mem _ hp)
          refine ⟨x :: xs, by rw [hexecutions, append_assoc]; rfl, hresiduals, ?_, fun h => ?_⟩
          · rw [map_cons, map_cons, houtput]
            exact cons_prefix_cons.mpr ⟨rfl, hstart⟩
          · obtain ⟨hall, hcurrent⟩ := hlast h
            exact ⟨by rw [map_cons, map_cons, houtput, hall], hcurrent⟩
      · have hfailed : (.ok (.failed g.leg.symbol (done ++ [d])) : Except DepthRaised Walked) =
            .ok (.completed last walked) := by
          simp [bind, Except.bind, hcomplete] at hd
        cases hfailed

variable {route : ArbitrageRoute} {startAsset : Option String}

theorem mem_rotatedLegs {asset : String}
    (h : rotatedLegs route asset = .ok legs) {leg : ArbitrageLeg} (hl : leg ∈ legs) : leg ∈ route.legs := by
  unfold rotatedLegs at h
  split at h
  · cases h
    rcases mem_append.mp hl with hl | hl
    · exact mem_of_mem_drop hl
    · exact mem_of_mem_take hl
  · cases h

/-- A completed walk walked all legs. -/
theorem simulateRouteDepth_complete {books : String → Option DepthBook}
    {d : DepthRouteSimulation}
    (h : simulateRouteDepth route books startAmount startAsset = .ok d) (hcomplete : d.complete = true)
    (hlegs : rotatedLegs route ((startAsset.filter fun asset => asset ≠ "").getD route.startAsset) = .ok legs) :
    ∃ last, simulateLegs books legs startAmount [] = .ok (.completed last d.legs) ∧ d.finalAmount = some last := by
  unfold simulateRouteDepth at h
  dsimp only at h
  split at h
  · cases h
  · rw [hlegs] at h
    cases hwalk : simulateLegs books legs startAmount [] with
    | error r =>
      simp [bind, Except.bind, hwalk] at h
    | ok walked =>
      cases walked with
      | failed symbol executions =>
        simp only [bind, Except.bind, hwalk, ok.injEq] at h
        rw [← h] at hcomplete
        cases hcomplete
      | completed current executions =>
        simp only [bind, Except.bind, hwalk, ok.injEq] at h
        rw [← h]
        exact ⟨current, rfl, rfl⟩

/-- How a settlement ends: at the gate, or with what its legs came to. -/
theorem simulateMultilegSettlement_ok {s : MultiLegSettlement} (h : simulateMultilegSettlement route e startAmount startAsset = .ok s) :
    s.startAsset = (startAsset.filter fun asset => asset ≠ "").getD route.startAsset ∧
      ∃ legs, rotatedLegs route s.startAsset = .ok legs ∧
        ((∃ failure, gateLegs e legs = .error failure ∧ s.failureReason = some failure.2 ∧ s.legs = [] ∧
            s.complete = false) ∨
          ∃ gs, gateLegs e legs = .ok gs ∧ s.legs = (settleLegs gs startAmount [] []).executions ∧
            s.failureReason = (settleLegs gs startAmount [] []).failed.map Prod.snd ∧
            (s.complete = true → (settleLegs gs startAmount [] []).failed = none ∧
              s.finalAmount = some ((settleLegs gs startAmount [] []).current +
                residualOf (settleLegs gs startAmount [] []).residuals s.startAsset))) := by
  unfold simulateMultilegSettlement at h
  dsimp only at h
  split at h
  · cases h
  · cases hlegs : rotatedLegs route ((startAsset.filter fun asset => asset ≠ "").getD route.startAsset) with
    | error r =>
      rw [hlegs] at h
      cases h
    | ok legs =>
      rw [hlegs] at h
      simp only [bind, Except.bind] at h
      cases hgate : gateLegs e legs with
      | error failure =>
        rw [hgate] at h
        cases h
        exact ⟨rfl, legs, hlegs, .inl ⟨failure, hgate, rfl, rfl, rfl⟩⟩
      | ok gs =>
        rw [hgate] at h
        dsimp only at h
        cases hfailed : (settleLegs gs startAmount [] []).failed with
        | some failure =>
          rw [hfailed] at h
          cases h
          exact ⟨rfl, legs, hlegs, .inr ⟨gs, hgate, rfl, by rw [hfailed]; rfl, fun hfalse => nomatch hfalse⟩⟩
        | none =>
          rw [hfailed] at h
          cases h
          exact ⟨rfl, legs, hlegs, .inr ⟨gs, hgate, rfl, by rw [hfailed]; rfl, fun _ => ⟨hfailed, rfl⟩⟩⟩

/-- What settled legs and a completed walk of the same legs come to. -/
theorem settleLegs_walk {d : DepthRouteSimulation} (hgs : ∀ g ∈ gs, g.Found e ∧ g.leg.Priced)
    (hlegs : rotatedLegs route ((startAsset.filter fun asset => asset ≠ "").getD route.startAsset) =
      .ok (gs.map GatedLeg.leg))
    (hd : simulateRouteDepth route (fun symbol => (e.books symbol).map DatedBook.toDepthBook) startAmount startAsset =
      .ok d) (hcomplete : d.complete = true) (hsteps : OnSteps e (gs.map GatedLeg.leg) d.legs) :
    (settleLegs gs startAmount [] []).residuals = [] ∧
      (settleLegs gs startAmount [] []).executions.map SettlementLeg.outputAmount <+:
        d.legs.map DepthLegSimulation.outputAmount ∧ ((settleLegs gs startAmount [] []).failed = none →
        (settleLegs gs startAmount [] []).executions.map SettlementLeg.outputAmount =
            d.legs.map DepthLegSimulation.outputAmount ∧
          d.finalAmount = some (settleLegs gs startAmount [] []).current) := by
  obtain ⟨last, hwalk, hfinal⟩ := simulateRouteDepth_complete hd hcomplete hlegs
  obtain ⟨new, hnew, hrun⟩ := @settleLegs_agrees e gs hgs startAmount last [] [] d.legs hwalk
  rw [hnew] at hsteps ⊢
  obtain ⟨xs, hexecutions, hresiduals, hstart, hlast⟩ := hrun hsteps
  rw [hexecutions]
  refine ⟨hresiduals, hstart, fun hnone => ?_⟩
  obtain ⟨hall, hcurrent⟩ := hlast hnone
  exact ⟨hall, by rw [hfinal, hcurrent]⟩

/-- **Self-consistent settlement.** No settlement reports that depth or input was short; its executed legs keep their
input, in whole steps of at least the minimum; and where the affordable amounts are whole steps already, its legs return
what the depth walk's legs do, as far as no gate and no minimum refuses the route. -/
theorem settlement_consistent {route : ArbitrageRoute} {startAmount : ℚ} {startAsset : Option String}
    {s : MultiLegSettlement} (hfees : ∀ leg ∈ route.legs, leg.Priced)
    (h : simulateMultilegSettlement route e startAmount startAsset = .ok s) :
    s.failureReason ≠ some "insufficient_depth" ∧ s.failureReason ≠ some "insufficient_input" ∧
      (∀ x ∈ s.legs, x.Kept e) ∧
      ∀ d legs, simulateRouteDepth route (fun symbol => (e.books symbol).map DatedBook.toDepthBook) startAmount
          startAsset = .ok d → d.complete = true → rotatedLegs route s.startAsset = .ok legs → OnSteps e legs d.legs →
        s.legs.map SettlementLeg.outputAmount <+: d.legs.map DepthLegSimulation.outputAmount ∧
          (s.complete = true →
            s.legs.map SettlementLeg.outputAmount = d.legs.map DepthLegSimulation.outputAmount ∧
              s.finalAmount = d.finalAmount) := by
  obtain ⟨hasset, legs, hlegs, hgate | hsettled⟩ := simulateMultilegSettlement_ok h
  · obtain ⟨failure, hgate, hreason, hnone, hincomplete⟩ := hgate
    have hne := (gateLegs_error hgate).ne
    rw [hreason, hnone]
    refine ⟨fun heq => hne.1 (some.inj heq), fun heq => hne.2 (some.inj heq), ?_, ?_⟩
    · intro x hx
      cases hx
    · intro d legs' _ _ _ _
      refine ⟨List.nil_prefix, fun hcomplete => ?_⟩
      rw [hincomplete] at hcomplete
      cases hcomplete
  · obtain ⟨gs, hgate, hexecutions, hreason, hend⟩ := hsettled
    obtain ⟨hmap, hfound⟩ := gateLegs_ok hgate
    have hgs : ∀ g ∈ gs, g.Found e ∧ g.leg.Priced := by
      intro g hg
      refine ⟨hfound g hg, hfees g.leg (mem_rotatedLegs hlegs ?_)⟩
      rw [← hmap]
      exact mem_map_of_mem hg
    obtain ⟨hkept, hfailure⟩ := @settleLegs_kept e gs hgs startAmount [] [] (fun x hx => nomatch hx)
    have hrefusal : ∀ reason, s.failureReason = some reason → Refusal reason := by
      intro reason hr
      rw [hreason] at hr
      obtain ⟨failure, hf, rfl⟩ := map_eq_some_iff.mp hr
      exact hfailure failure hf
    rw [hexecutions]
    refine ⟨fun heq => (hrefusal _ heq).ne.1 rfl, fun heq => (hrefusal _ heq).ne.2 rfl, hkept, ?_⟩
    intro d legs' hd hcomplete hlegs' hsteps
    have hsame : legs' = gs.map GatedLeg.leg := (ok.inj (hlegs'.symm.trans hlegs)).trans hmap.symm
    rw [hsame] at hsteps
    rw [hasset, ← hmap] at hlegs
    obtain ⟨hresiduals, hstart, hlast⟩ := settleLegs_walk hgs hlegs hd hcomplete hsteps
    refine ⟨hstart, fun hall => ?_⟩
    obtain ⟨hnone, hfinal⟩ := hend hall
    obtain ⟨houtputs, hwalked⟩ := hlast hnone
    refine ⟨houtputs, ?_⟩
    rw [hfinal, hwalked, hresiduals]
    simp [residualOf]

end Settle

/-! ### A route of three sells -/

/-- A sell without fees. -/
def plainSell (symbol fromAsset toAsset : String) : ArbitrageLeg :=
  ⟨symbol, fromAsset, toAsset, .sell, 1, 0, 1, 10, 0⟩

def plainRoute : ArbitrageRoute :=
  ⟨"route-1", "a", [plainSell "a/b" "a" "b", plainSell "b/c" "b" "c", plainSell "c/a" "c" "a"], 0, 10⟩

/-- One level of ten on either side, at `1`. -/
def plainDepth : DatedBook where
  bids := [⟨1, 10, pos_one, pos_ten⟩]
  asks := [⟨1, 10, pos_one, pos_ten⟩]
  bids_ne_nil := cons_ne_nil _ _
  asks_ne_nil := cons_ne_nil _ _
  bids_sorted := pairwise_singleton _ _
  asks_sorted := pairwise_singleton _ _
  asOf := 0

/-- A market of whole units, with a minimum order. -/
def wholeUnitMarket (minAmount : ℚ) (h : 0 < minAmount) (symbol : String) : MarketInfo where
  symbol := symbol
  base := "base"
  quote := "quote"
  spot := true
  active := true
  amountStep := some 1
  minAmount := some minAmount
  minCost := none
  takerFeeRateBase := some 0
  takerFeeRateQuote := some 0
  marketOrderEnabled := true
  amountStep_pos := some_one_pos
  minAmount_pos := by simpa using h
  minCost_pos := none_pos
  takerFeeRateBase_range := free_range
  takerFeeRateQuote_range := free_range

def settleInputs (minAmount : ℚ) (h : 0 < minAmount) : SettlementInputs where
  books := fun _ => some plainDepth
  markets := fun symbol => some (wholeUnitMarket minAmount h symbol)
  circuitStatuses := fun _ => some ⟨.none, some "NORMAL", 0⟩
  now := 0
  maxStatusAgeSeconds := 5
  maxBookAgeSeconds := 2

theorem plainRoute_sells {leg : ArbitrageLeg} (h : leg ∈ plainRoute.legs) :
    ∃ symbol fromAsset toAsset, leg = plainSell symbol fromAsset toAsset := by
  simp only [plainRoute, mem_cons, not_mem_nil, or_false] at h
  rcases h with rfl | rfl | rfl <;> exact ⟨_, _, _, rfl⟩

theorem plainRoute_priced : ∀ leg ∈ plainRoute.legs, leg.Priced := by
  intro leg hleg
  obtain ⟨_, _, _, rfl⟩ := plainRoute_sells hleg
  exact ⟨le_rfl, le_rfl⟩

/-- Two and a half units are settled as two, and half a unit stays behind. -/
theorem settlement_consistent_plainRoute : ∃ s, simulateMultilegSettlement plainRoute
    (settleInputs 1 (by norm_num)) (5 / 2) none = .ok s ∧ s.finalAmount = some (5 / 2) ∧
      ∀ x ∈ s.legs, x.Kept (settleInputs 1 (by norm_num)) := by
  have hrun : (simulateMultilegSettlement plainRoute (settleInputs 1 (by norm_num)) (5 / 2) none).toOption.map
      MultiLegSettlement.finalAmount = some (some (5 / 2)) := by
    decide +kernel
  cases h : simulateMultilegSettlement plainRoute (settleInputs 1 (by norm_num)) (5 / 2) none with
  | error r =>
    rw [h] at hrun
    cases hrun
  | ok s =>
    rw [h] at hrun
    exact ⟨s, rfl, some.inj hrun, (settlement_consistent plainRoute_priced h).2.2.1⟩

/-- A minimum refuses what the depth walk completes. -/
theorem settlement_refuses : ¬ ∀ (route : ArbitrageRoute) (e : SettlementInputs) (startAmount : ℚ)
    (s : MultiLegSettlement) (d : DepthRouteSimulation) (legs : List ArbitrageLeg), (∀ leg ∈ route.legs, leg.Priced) →
      simulateMultilegSettlement route e startAmount none = .ok s →
      simulateRouteDepth route (fun symbol => (e.books symbol).map DatedBook.toDepthBook) startAmount none = .ok d →
      d.complete = true → rotatedLegs route s.startAsset = .ok legs → OnSteps e legs d.legs →
      s.finalAmount = d.finalAmount := by
  intro h
  have hsettled : (simulateMultilegSettlement plainRoute (settleInputs 5 (by norm_num)) 1 none).toOption.map
      (fun s => (s.startAsset, s.finalAmount)) = some ("a", none) := by
    decide +kernel
  have hwalked : (simulateRouteDepth plainRoute
      (fun symbol => ((settleInputs 5 (by norm_num)).books symbol).map DatedBook.toDepthBook) 1 none).toOption.map
        (fun d => (d.complete, d.finalAmount, d.legs.map DepthLegSimulation.inputAmount)) =
          some (true, some 1, [1, 1, 1]) := by
    decide +kernel
  cases hs : simulateMultilegSettlement plainRoute (settleInputs 5 (by norm_num)) 1 none with
  | error r =>
    rw [hs] at hsettled
    cases hsettled
  | ok s =>
    cases hd : simulateRouteDepth plainRoute
        (fun symbol => ((settleInputs 5 (by norm_num)).books symbol).map DatedBook.toDepthBook) 1 none with
    | error r =>
      rw [hd] at hwalked
      cases hwalked
    | ok d =>
      rw [hs] at hsettled
      rw [hd] at hwalked
      obtain ⟨hasset, hnone⟩ := Prod.mk.inj (some.inj hsettled)
      obtain ⟨hcomplete, hrest⟩ := Prod.mk.inj (some.inj hwalked)
      obtain ⟨hfinal, hinputs⟩ := Prod.mk.inj hrest
      have hlegs : rotatedLegs plainRoute s.startAsset = .ok plainRoute.legs := by
        rw [hasset]
        rfl
      have hsteps : OnSteps (settleInputs 5 (by norm_num)) plainRoute.legs d.legs := by
        intro p hp market book step hmarket hbook hstep
        obtain ⟨hleg, hwalk⟩ := of_mem_zip hp
        have hinput : p.2.inputAmount = 1 := by
          have hmem : p.2.inputAmount ∈ d.legs.map DepthLegSimulation.inputAmount := mem_map_of_mem hwalk
          rw [hinputs] at hmem
          simpa using hmem
        cases hmarket
        cases hbook
        cases hstep
        obtain ⟨symbol, fromAsset, toAsset, hsell⟩ := plainRoute_sells hleg
        rw [hsell, hinput]
        have hbase : maxAffordableBase (plainSell symbol fromAsset toAsset) plainDepth.toDepthBook 1 = 1 := by
          simp [maxAffordableBase, plainSell, plainDepth]
        rw [hbase]
        exact ⟨1, by norm_num⟩
      have hsame := h plainRoute (settleInputs 5 (by norm_num)) 1 s d plainRoute.legs plainRoute_priced hs hd hcomplete
        hlegs hsteps
      rw [hnone, hfinal] at hsame
      cases hsame

end Docich.Trading
