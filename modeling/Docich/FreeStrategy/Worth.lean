import Docich.Fallible
import Docich.Ladder
import Docich.FreeStrategy.Broker

/-!
# What holdings are worth

The walk over the levels is the cost of a ladder (`quote_eq`). A sell never lowers what an account is worth, since its
parts fetch at least what the whole does (`worth_sell`); a buy never raises it, since the bids are below the asks
(`worth_buy`).
-/

namespace Docich.FreeStrategy

open Durable Trading List Fallible Ladder

variable {policy : Policy} {seen : Observation} {venue : Venue} {symbol reason : String} {levels : List DepthLevel}
  {amount held participation priceFactor gross : ℚ}

/-! ## Quotes -/

def depthOf (participation : ℚ) (levels : List DepthLevel) : ℚ := (levels.map fun v => v.amount * participation).sum

def quoteOf (participation priceFactor : ℚ) (levels : List DepthLevel) (q : ℚ) : ℚ :=
  Ladder.cost (fun v => v.price * priceFactor) (fun v => v.amount * participation) levels q

variable (hp : 0 < participation)

include hp

theorem amounts_nonneg (levels : List DepthLevel) :
    ∀ v ∈ levels, 0 ≤ v.amount * participation := fun v _ => (mul_pos v.amount_pos hp).le

theorem depthOf_nonneg (levels : List DepthLevel) : 0 ≤ depthOf participation levels := by
  apply sum_nonneg
  intro x hx
  obtain ⟨v, hv, rfl⟩ := mem_map.mp hx
  exact amounts_nonneg hp levels v hv

theorem walkLevels_eq {remaining total : ℚ} (hr : 0 ≤ remaining) :
    walkLevels participation priceFactor levels remaining total =
      (remaining - min remaining (depthOf participation levels),
        total + quoteOf participation priceFactor levels remaining) := by
  induction levels generalizing remaining total with
  | nil => simp [walkLevels, depthOf, quoteOf, Ladder.cost, hr]
  | cons v vs ih =>
    have hdepth := depthOf_nonneg hp vs
    have htotal : depthOf participation (v :: vs) = v.amount * participation + depthOf participation vs := rfl
    unfold walkLevels quoteOf
    dsimp only
    rw [cost_cons, htotal]
    split
    · next hdone =>
      have hle : remaining ≤ v.amount * participation := by
        by_contra hgt
        rw [min_eq_right (not_le.mp hgt).le] at hdone
        linarith
      rw [min_eq_left hle, min_eq_left (by linarith), sub_self, cost_zero (amounts_nonneg hp vs), add_zero,
        mul_assoc]
    · next hmore =>
      have hlt : v.amount * participation < remaining := by
        by_contra hle
        rw [min_eq_left (not_lt.mp hle), sub_self] at hmore
        exact hmore le_rfl
      have hmin := min_add_add_left (v.amount * participation) (remaining - v.amount * participation)
        (depthOf participation vs)
      rw [add_sub_cancel] at hmin
      rw [min_eq_right hlt.le, ih (sub_nonneg.mpr hlt.le), hmin]
      unfold quoteOf
      simp only [Prod.mk.injEq]
      constructor
      · ring
      · ring

theorem quote_eq (ha : 0 ≤ amount) : quote amount levels participation priceFactor =
    (min amount (depthOf participation levels), quoteOf participation priceFactor levels amount) := by
  unfold quote
  rw [walkLevels_eq hp ha]
  simp

omit hp

/-! ## Fees, slippage and books -/

theorem Policy.slippage_range (policy : Policy) : 0 ≤ policy.slippage ∧ policy.slippage ≤ 1 := by
  obtain ⟨hlow, hhigh⟩ := policy.slippageBps_range
  unfold Policy.slippage
  constructor
  · linarith
  · linarith

theorem bid_le (venue : Venue) : ∀ v ∈ venue.book.bids, v.price ≤ venue.book.bestBid.price := by
  intro v hv
  obtain ⟨b, bs, hb⟩ := exists_cons_of_ne_nil venue.book.bids_ne_nil
  have hsorted := venue.book.bids_sorted
  unfold ObservedBook.bestBid
  simp only [hb, head_cons] at hv hsorted ⊢
  rcases mem_cons.mp hv with rfl | hv
  · exact le_rfl
  · exact (pairwise_cons.mp hsorted).1 v hv

theorem le_ask (venue : Venue) : ∀ v ∈ venue.book.asks, venue.book.bestAsk.price ≤ v.price := by
  intro v hv
  obtain ⟨a, as, ha⟩ := exists_cons_of_ne_nil venue.book.asks_ne_nil
  have hsorted := venue.book.asks_sorted
  unfold ObservedBook.bestAsk
  simp only [ha, head_cons] at hv hsorted ⊢
  rcases mem_cons.mp hv with rfl | hv
  · exact le_rfl
  · exact (pairwise_cons.mp hsorted).1 v hv

theorem ask_le_worst (venue : Venue) : ∀ v ∈ venue.book.asks, v.price ≤ (venue.book.worst .buy).price := by
  intro v hv
  have hsorted := venue.book.asks_sorted
  unfold ObservedBook.worst
  rw [← dropLast_append_getLast venue.book.asks_ne_nil] at hv hsorted
  rcases mem_append.mp hv with hv | hv
  · exact (pairwise_append.mp hsorted).2.2 v hv _ (mem_singleton_self _)
  · rw [mem_singleton.mp hv]

/-! ## Valuations -/

/-- What the bids give for the holding. -/
def Venue.worth (policy : Policy) (venue : Venue) (amount : ℚ) : ℚ :=
  quoteOf policy.bookParticipation (1 - policy.slippage) venue.book.bids (amount / (1 + venue.baseFee)) *
    (1 - venue.quoteFee)

def worth (policy : Policy) (seen : Observation) (p : Position) : ℚ :=
  match validateMarket seen p.symbol with
  | .ok venue => venue.worth policy p.amount
  | .error _ => 0

def Valuable (policy : Policy) (seen : Observation) (symbol : String) (amount : ℚ) : Prop :=
  ∃ value, liquidation policy seen symbol amount = .ok value

/-- The market of the symbol passes the checks. -/
def Validated (seen : Observation) (symbol : String) : Prop := ∃ venue, validateMarket seen symbol = .ok venue

variable (h : validateMarket seen symbol = .ok venue)

include h

theorem validateMarket_book : seen.books symbol = some venue.book := by
  unfold validateMarket at h
  repeat' split at h
  all_goals cases h
  assumption

theorem worth_of :
    worth policy seen ⟨symbol, amount⟩ = venue.worth policy amount := by
  unfold worth
  rw [h]

omit h

theorem Venue.worth_zero : venue.worth policy 0 = 0 := by
  unfold Venue.worth quoteOf
  rw [zero_div, cost_zero (amounts_nonneg policy.bookParticipation_pos _), zero_mul]

include h in
theorem liquidation_eq (ha : 0 ≤ amount) :
    liquidation policy seen symbol amount =
      if depthOf policy.bookParticipation venue.book.bids < amount / (1 + venue.baseFee) then
        .error "valuation_depth_insufficient"
      else .ok (venue.worth policy amount) := by
  have hfee := venue.baseFee_range.1
  have horder : 0 ≤ amount / (1 + venue.baseFee) := div_nonneg ha (by linarith)
  unfold liquidation
  rw [ok_bind h]
  unfold liquidationValue
  dsimp only
  rw [quote_eq policy.bookParticipation_pos horder]
  simp only [min_lt_iff, lt_self_iff_false, false_or]
  rfl

/-- Only the depth fails the valuation of a validated symbol. -/
theorem liquidation_error (h : Validated seen symbol) (ha : 0 ≤ amount)
    (he : liquidation policy seen symbol amount = .error reason) : reason = "valuation_depth_insufficient" := by
  obtain ⟨venue, hvenue⟩ := h
  rw [liquidation_eq hvenue ha] at he
  split at he
  · cases he
    rfl
  · cases he

theorem liquidation_ok (h : Validated seen symbol) (ha : 0 ≤ amount) {value : ℚ}
    (hok : liquidation policy seen symbol amount = .ok value) : value = worth policy seen ⟨symbol, amount⟩ := by
  obtain ⟨venue, hvenue⟩ := h
  rw [liquidation_eq hvenue ha] at hok
  rw [worth_of hvenue]
  split at hok
  · cases hok
  · cases hok
    rfl

/-- Less of a holding needs less depth. -/
theorem Valuable.le (h : Valuable policy seen symbol held) (ha : 0 ≤ amount) (hle : amount ≤ held) :
    Valuable policy seen symbol amount := by
  obtain ⟨value, hvalue⟩ := h
  obtain ⟨venue, hvenue, -⟩ := bind_ok hvalue
  have hfee := venue.baseFee_range.1
  have horder := div_le_div_of_nonneg_right hle (by linarith : 0 ≤ 1 + venue.baseFee)
  rw [liquidation_eq hvenue (ha.trans hle)] at hvalue
  refine ⟨venue.worth policy amount, ?_⟩
  rw [liquidation_eq hvenue ha]
  split at hvalue
  · cases hvalue
  · next hdepth => exact if_neg (not_lt.mpr (horder.trans (not_lt.mp hdepth)))

theorem valuation_ok {ps : List Position} {value : ℚ} (hps : ∀ p ∈ ps, Validated seen p.symbol ∧ 0 < p.amount)
    (h : valuation policy seen ps = .ok value) :
    value = (ps.map (worth policy seen)).sum ∧ ∀ p ∈ ps, Valuable policy seen p.symbol p.amount := by
  induction ps generalizing value with
  | nil =>
    cases h
    simp
  | cons p ps ih =>
    obtain ⟨first, hfirst, htail⟩ := bind_ok h
    obtain ⟨rest, hrest, hvalue⟩ := bind_ok htail
    cases hvalue
    obtain ⟨hvalid, hpos⟩ := hps p mem_cons_self
    obtain ⟨hsum, hall⟩ := ih (fun q hq => hps q (mem_cons_of_mem _ hq)) hrest
    rw [map_cons, sum_cons, hsum, liquidation_ok hvalid hpos.le hfirst]
    refine ⟨rfl, ?_⟩
    intro q hq
    rcases mem_cons.mp hq with rfl | hq
    · exact ⟨first, hfirst⟩
    · exact hall q hq

theorem valuation_error {ps : List Position} (hps : ∀ p ∈ ps, Validated seen p.symbol ∧ 0 < p.amount)
    (h : valuation policy seen ps = .error reason) :
    reason = "valuation_depth_insufficient" ∧ ∃ p ∈ ps, ¬ Valuable policy seen p.symbol p.amount := by
  induction ps with
  | nil => cases h
  | cons p ps ih =>
    obtain ⟨hvalid, hpos⟩ := hps p mem_cons_self
    unfold valuation at h
    cases hfirst : liquidation policy seen p.symbol p.amount with
    | error e =>
      rw [error_bind hfirst] at h
      cases h
      refine ⟨liquidation_error hvalid hpos.le hfirst, p, mem_cons_self, ?_⟩
      rintro ⟨value, hvalue⟩
      rw [hfirst] at hvalue
      cases hvalue
    | ok first =>
      rw [ok_bind hfirst] at h
      cases hrest : valuation policy seen ps with
      | ok rest =>
        rw [hrest] at h
        cases h
      | error e =>
        rw [hrest] at h
        cases h
        obtain ⟨hreason, q, hq, hno⟩ := ih (fun q hq => hps q (mem_cons_of_mem _ hq)) hrest
        exact ⟨hreason, q, mem_cons_of_mem _ hq, hno⟩

/-! ## Trades -/

/-- A sell fetches at least what the holding loses. -/
theorem worth_sell (ha : 0 < amount) (hle : amount + amount * venue.baseFee ≤ held) :
    venue.worth policy held ≤ venue.worth policy (held - (amount + amount * venue.baseFee)) +
      quoteOf policy.bookParticipation (policy.factor .sell) venue.book.bids amount * (1 - venue.quoteFee) := by
  obtain ⟨hbase, -⟩ := venue.baseFee_range
  obtain ⟨-, hquote⟩ := venue.quoteFee_range
  obtain ⟨-, hslip⟩ := policy.slippage_range
  have hunit : 0 < 1 + venue.baseFee := by linarith
  have hsold : (held - (amount + amount * venue.baseFee)) / (1 + venue.baseFee) = held / (1 + venue.baseFee) - amount := by
    rw [div_sub' hunit.ne']
    ring
  have hamount : amount ≤ held / (1 + venue.baseFee) := by
    rw [le_div_iff₀ hunit]
    linarith
  have hparts := @Ladder.cost_add_le_add _ _ _ _ _ (fun v : DepthLevel => v.price * (1 - policy.slippage))
    (fun v => v.amount * policy.bookParticipation) venue.book.bids (held / (1 + venue.baseFee) - amount) amount
    (amounts_nonneg policy.bookParticipation_pos _) (fun v _ => mul_nonneg v.price_pos.le (by linarith))
    (venue.book.bids_sorted.imp fun h => mul_le_mul_of_nonneg_right h (by linarith)) (sub_nonneg.mpr hamount) ha.le
  rw [sub_add_cancel] at hparts
  unfold Venue.worth
  rw [hsold, ← add_mul]
  exact mul_le_mul_of_nonneg_right hparts (by linarith)

/-- A buy costs at least what the holding gains. -/
theorem worth_buy (ha : 0 < amount) (hdepth : amount ≤ depthOf policy.bookParticipation venue.book.asks) :
    venue.worth policy (held + (amount - amount * venue.baseFee)) ≤ venue.worth policy held +
      quoteOf policy.bookParticipation (policy.factor .buy) venue.book.asks amount * (1 + venue.quoteFee) := by
  obtain ⟨hbase, hbase'⟩ := venue.baseFee_range
  obtain ⟨hquote, hquote'⟩ := venue.quoteFee_range
  obtain ⟨hslip, hslip'⟩ := policy.slippage_range
  have hunit : 0 < 1 + venue.baseFee := by linarith
  have hbid := venue.book.bestBid.price_pos
  have hspread := venue.spread
  -- the order for what is gained is at most the amount that was bought
  let gained := (amount - amount * venue.baseFee) / (1 + venue.baseFee)
  have hnonneg : 0 ≤ gained := div_nonneg (by nlinarith) hunit.le
  have hgained : gained ≤ amount := by
    rw [div_le_iff₀ hunit]
    nlinarith
  have hmore := @Ladder.cost_add_le _ _ _ _ _ (fun v : DepthLevel => v.price * (1 - policy.slippage))
    (fun v => v.amount * policy.bookParticipation) venue.book.bids (held / (1 + venue.baseFee)) gained
    (venue.book.bestBid.price * (1 - policy.slippage))
    (fun v hv => mul_le_mul_of_nonneg_right (bid_le venue v hv) (by linarith)) hnonneg
    (mul_nonneg hbid.le (by linarith))
  have hcost := @Ladder.le_cost _ _ _ _ _ (fun v : DepthLevel => v.price * (1 + policy.slippage))
    (fun v => v.amount * policy.bookParticipation) venue.book.asks amount
    (venue.book.bestAsk.price * (1 + policy.slippage)) (amounts_nonneg policy.bookParticipation_pos _)
    (fun v hv => mul_le_mul_of_nonneg_right (le_ask venue v hv) (by linarith)) ha.le hdepth
  have hprice : gained * (venue.book.bestBid.price * (1 - policy.slippage)) ≤
      amount * (venue.book.bestAsk.price * (1 + policy.slippage)) := by
    apply mul_le_mul hgained ?_ (mul_nonneg hbid.le (by linarith)) ha.le
    exact mul_le_mul hspread.le (by linarith) (by linarith) (hbid.trans hspread).le
  have hpaid : 0 ≤ quoteOf policy.bookParticipation (1 + policy.slippage) venue.book.asks amount := by
    refine le_trans ?_ hcost
    exact mul_nonneg ha.le (mul_nonneg (hbid.trans hspread).le (by linarith))
  have hadded : quoteOf policy.bookParticipation (1 - policy.slippage) venue.book.bids
      (held / (1 + venue.baseFee) + gained) ≤
      quoteOf policy.bookParticipation (1 - policy.slippage) venue.book.bids (held / (1 + venue.baseFee)) +
        quoteOf policy.bookParticipation (1 + policy.slippage) venue.book.asks amount :=
    hmore.trans (add_le_add le_rfl (hprice.trans hcost))
  unfold Venue.worth Policy.factor
  rw [add_div]
  have hscaled := mul_le_mul_of_nonneg_right hadded (by linarith : 0 ≤ 1 - venue.quoteFee)
  have hfees := mul_le_mul_of_nonneg_left (by linarith : 1 - venue.quoteFee ≤ 1 + venue.quoteFee) hpaid
  rw [add_mul] at hscaled
  exact hscaled.trans (by gcongr)

end Docich.FreeStrategy
