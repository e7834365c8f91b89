import Docich.Trading.Allocation

/-!
# Allocation limits

What one decision takes and leaves (`Considered`), and what the decisions of a run keep (`Limited`). The ceiling is kept
when the deployed value is within it at the start; a value above it is forgotten by the first sale.
-/

namespace Docich.Trading

open List Function

/-! ## Rounding to a step -/

section Steps

variable {market : MarketInfo} {amount price : ℚ}

/-- An amount in lots of the market, if it has lots. -/
def InSteps (market : MarketInfo) (amount : ℚ) : Prop := ∀ step, market.amountStep = some step → IsMultiple step amount

variable (market) in
theorem roundDownStep_ok (h : 0 ≤ amount) :
    roundDownStep amount market.amountStep ≤ amount ∧ InSteps market (roundDownStep amount market.amountStep) := by
  unfold InSteps
  cases hstep : market.amountStep with
  | none => exact ⟨le_rfl, fun step h => (nomatch h)⟩
  | some step =>
    have hpos := market.amountStep_pos step hstep
    unfold roundDownStep
    dsimp only
    split
    · refine ⟨h, fun step' h' => ?_⟩
      exact ⟨0, by simp⟩
    · refine ⟨roundDown_le hpos amount, fun step' h' => ?_⟩
      cases h'
      exact roundDown_multiple step amount

variable (market) in
theorem roundUpStep_ok (h : 0 < amount) :
    amount ≤ roundUpStep amount market.amountStep ∧ InSteps market (roundUpStep amount market.amountStep) := by
  unfold InSteps
  cases hstep : market.amountStep with
  | none => exact ⟨le_rfl, fun step h => (nomatch h)⟩
  | some step =>
    have hpos := market.amountStep_pos step hstep
    unfold roundUpStep
    dsimp only
    rw [if_neg (not_le.mpr h)]
    obtain ⟨k, hk⟩ := roundDown_multiple step amount
    split
    · next hle =>
      refine ⟨hle, fun step' h' => ?_⟩
      cases h'
      exact ⟨k, hk⟩
    · refine ⟨(lt_roundDown_add hpos amount).le, fun step' h' => ?_⟩
      cases h'
      refine ⟨k + 1, ?_⟩
      rw [hk]
      push_cast
      ring

/-- The minimum of a market is positive, and covers both its floors. -/
theorem marketMinAmount_pos {required : ℚ} (hprice : 0 < price) (h : marketMinAmount market price = some required) :
    0 < required := by
  have hamount := market.minAmount_pos
  have hcost := market.minCost_pos
  unfold marketMinAmount at h
  dsimp only at h
  split at h
  · exact hamount required (Option.mem_filter_iff.mp h).1
  · next cost hc =>
    have hpos : 0 < cost / price := div_pos (hcost cost (Option.mem_filter_iff.mp hc).1) hprice
    split at h
    · cases h
      exact hpos
    · cases h
      exact lt_max_of_lt_right hpos

end Steps

/-! ## One decision -/

/-- A decision takes what its terms say. -/
structure Decided (e : Inputs) (o : Opportunity) (market : MarketInfo) (price rate amount : ℚ) (d : AllocationDecision) :
    Prop where
  found : e.markets o.symbol = some market
  price_pos : 0 < price
  rate_pos : 0 < rate
  amount_pos : 0 < amount
  steps : InSteps market amount
  minAmount : ∀ least, market.minAmount = some least → least ≤ amount
  minCost : ∀ least, market.minCost = some least → least ≤ amount * price
  eq : d = decision o market price rate amount

inductive Considered (e : Inputs) (s : Remaining) (o : Opportunity) (d : AllocationDecision) (s' : Remaining) : Prop
  | sold (market : MarketInfo) (price rate amount : ℚ) (hside : o.side = .sell)
      (hd : Decided e o market price rate amount d) (hheld : amount ≤ s.base o.symbol)
      (hs : s' = { reference := min e.totalLimit (s.reference + d.referenceNotional)
                   quote := Function.update s.quote market.quote (s.quote market.quote + d.quoteNotional)
                   base := Function.update s.base o.symbol (s.base o.symbol - amount) })
  | bought (market : MarketInfo) (price rate amount : ℚ) (hside : o.side = .buy)
      (hd : Decided e o market price rate amount d) (hreference : d.referenceNotional ≤ s.reference)
      (hcap : d.referenceNotional ≤ e.capital * e.policy.maxOpportunityFraction)
      (hquote : d.quoteNotional ≤ s.quote market.quote)
      (hs : s' = { s with
        reference := s.reference - d.referenceNotional
        quote := Function.update s.quote market.quote (s.quote market.quote - d.quoteNotional) })

section Consider

variable {e : Inputs} {s s' : Remaining} {o : Opportunity} {d : AllocationDecision} {market : MarketInfo}
  {price rate amount : ℚ}

theorem terms_ok (h : terms e o = .ok (market, price, rate)) :
    e.markets o.symbol = some market ∧ 0 < price ∧ 0 < rate := by
  unfold terms at h
  simp only [bind, Except.bind, pure, Except.pure, throw, throwThe, MonadExceptOf.throw] at h
  split at h
  · cases h
  · split at h
    · cases h
    · next m hm =>
      split at h
      · cases h
      · split at h
        · cases h
        · split at h
          · cases h
          · next p hp =>
            split at h
            · cases h
            · next r hr =>
              cases h
              exact ⟨hm, of_decide_eq_true (Option.mem_filter_iff.mp hp).2, of_decide_eq_true (Option.mem_filter_iff.mp hr).2⟩

theorem floor_le {least : Option ℚ} {x : ℚ} (h : ¬ least.any (x < ·) = true) : ∀ y, least = some y → y ≤ x := by
  rintro y rfl
  simpa using h

theorem refuse_ok {α : Type} {p : Prop} [Decidable p] {reason : String} {f : Unit → Except String α} {a : α}
    (h : (refuse p reason >>= f) = .ok a) : ¬ p ∧ f () = .ok a := by
  unfold refuse at h
  by_cases hp : p
  · rw [if_pos hp] at h
    cases h
  · rw [if_neg hp] at h
    exact ⟨hp, h⟩

theorem sellAmount_ok (h : sellAmount s o market price = .ok amount) : 0 < amount ∧ amount ≤ s.base o.symbol ∧
    InSteps market amount ∧ (∀ least, market.minAmount = some least → least ≤ amount) ∧
      ∀ least, market.minCost = some least → least ≤ amount * price := by
  obtain ⟨hheld, h⟩ := refuse_ok h
  obtain ⟨hmin, h⟩ := refuse_ok h
  obtain ⟨hcost, h⟩ := refuse_ok h
  cases h
  obtain ⟨hle, hsteps⟩ := roundDownStep_ok market (not_le.mp hheld).le
  rw [not_or, not_le] at hmin
  exact ⟨hmin.1, hle, hsteps, floor_le hmin.2, floor_le hcost⟩

/-- A buy fits the reference, the cap of an opportunity and the quote balance, also when the minimum lot is larger than
the target. -/
theorem buyAmount_ok (hcapital : 0 ≤ e.capital) (hprice : 0 < price) (hrate : 0 < rate)
    (h : buyAmount e s o market price rate = .ok amount) : 0 < amount ∧ InSteps market amount ∧
      amount * price * rate ≤ s.reference ∧ amount * price * rate ≤ e.capital * e.policy.maxOpportunityFraction ∧
      amount * price ≤ s.quote market.quote ∧ (∀ least, market.minAmount = some least → least ≤ amount) ∧
      ∀ least, market.minCost = some least → least ≤ amount * price := by
  obtain ⟨-, h⟩ := refuse_ok h
  obtain ⟨-, h⟩ := refuse_ok h
  obtain ⟨htarget, h⟩ := refuse_ok h
  obtain ⟨hhard, h⟩ := refuse_ok h
  obtain ⟨-, h⟩ := refuse_ok h
  obtain ⟨hfunding, h⟩ := refuse_ok h
  obtain ⟨hpos, h⟩ := refuse_ok h
  obtain ⟨hmin, h⟩ := refuse_ok h
  obtain ⟨hcost, h⟩ := refuse_ok h
  obtain ⟨hreference, h⟩ := refuse_ok h
  cases h
  rw [not_le] at htarget hpos
  rw [not_or, not_le, not_lt] at hreference
  have hunit : 0 < price * rate := mul_pos hprice hrate
  have hcaps : min (min (e.capital * min e.policy.maxOpportunityFraction o.maxNotionalFraction) s.reference)
      (s.quote market.quote * rate) ≤ e.capital * e.policy.maxOpportunityFraction := by
    apply le_trans (min_le_left _ _)
    apply le_trans (min_le_left _ _)
    exact mul_le_mul_of_nonneg_left (min_le_left _ _) hcapital
  have hfunds : min (min (e.capital * min e.policy.maxOpportunityFraction o.maxNotionalFraction) s.reference)
      (s.quote market.quote * rate) ≤ s.quote market.quote * rate := min_le_right _ _
  generalize min (min (e.capital * min e.policy.maxOpportunityFraction o.maxNotionalFraction) s.reference)
    (s.quote market.quote * rate) = target at *
  have hraw : 0 ≤ target / rate / price := (div_pos (div_pos htarget hrate) hprice).le
  obtain ⟨hrounded, hsteps⟩ := roundDownStep_ok market hraw
  have hdown : roundDownStep (target / rate / price) market.amountStep * (price * rate) ≤ target := by
    have hle := mul_le_mul_of_nonneg_right hrounded hunit.le
    have heq : target / rate / price * (price * rate) = target := by field_simp
    rw [heq] at hle
    exact hle
  -- Both the rounded target and the minimum lot are in steps, and within the two caps.
  have hboth : InSteps market (max (roundDownStep (target / rate / price) market.amountStep)
        (((marketMinAmount market price).map fun required => roundUpStep required market.amountStep).getD
          (roundDownStep (target / rate / price) market.amountStep))) ∧
      max (roundDownStep (target / rate / price) market.amountStep)
        (((marketMinAmount market price).map fun required => roundUpStep required market.amountStep).getD
          (roundDownStep (target / rate / price) market.amountStep)) * (price * rate) ≤
        e.capital * e.policy.maxOpportunityFraction ∧
      max (roundDownStep (target / rate / price) market.amountStep)
        (((marketMinAmount market price).map fun required => roundUpStep required market.amountStep).getD
          (roundDownStep (target / rate / price) market.amountStep)) * (price * rate) ≤ s.quote market.quote * rate := by
    cases hleast : marketMinAmount market price with
    | none =>
      rw [Option.map_none, Option.getD_none, max_self]
      exact ⟨hsteps, le_trans hdown hcaps, le_trans hdown hfunds⟩
    | some required =>
      have hrequired := marketMinAmount_pos hprice hleast
      obtain ⟨hup, hupsteps⟩ := roundUpStep_ok market hrequired
      rw [hleast, Option.map_some, Option.map_some, Option.getD_some] at hhard hfunding
      have hminimum : 0 < roundUpStep required market.amountStep * price * rate :=
        mul_pos (mul_pos (lt_of_lt_of_le hrequired hup) hprice) hrate
      have hhard' := not_lt.mp fun hlt => hhard ⟨hminimum, hlt⟩
      have hfunding' := not_lt.mp fun hlt => hfunding ⟨hminimum, hlt⟩
      rw [mul_assoc] at hhard' hfunding'
      rw [Option.map_some, Option.getD_some]
      rcases max_choice (roundDownStep (target / rate / price) market.amountStep)
        (roundUpStep required market.amountStep) with hmax | hmax
      · rw [hmax]
        exact ⟨hsteps, le_trans hdown hcaps, le_trans hdown hfunds⟩
      · rw [hmax]
        exact ⟨hupsteps, hhard', hfunding'⟩
  obtain ⟨hin, hcap, hquote⟩ := hboth
  refine ⟨hpos, hin, hreference.2, ?_, ?_, floor_le hmin, floor_le hcost⟩
  · rw [mul_assoc]
    exact hcap
  · rw [← mul_assoc] at hquote
    exact le_of_mul_le_mul_right hquote hrate

theorem consider_ok (hcapital : 0 ≤ e.capital) (h : consider e s o = .ok (d, s')) : Considered e s o d s' := by
  unfold consider at h
  simp only [bind, Except.bind] at h
  split at h
  · cases h
  · next t ht =>
    obtain ⟨market, price, rate⟩ := t
    obtain ⟨hmarket, hprice, hrate⟩ := terms_ok ht
    cases hside : o.side with
    | sell =>
      rw [hside] at h
      dsimp only at h
      split at h
      · cases h
      · next amount ha =>
        obtain ⟨hpos, hle, hsteps, hmin, hcost⟩ := sellAmount_ok ha
        cases h
        exact .sold market price rate amount hside ⟨hmarket, hprice, hrate, hpos, hsteps, hmin, hcost, rfl⟩ hle rfl
    | buy =>
      rw [hside] at h
      dsimp only at h
      split at h
      · cases h
      · next amount ha =>
        obtain ⟨hpos, hsteps, hreference, hcap, hquote, hmin, hcost⟩ := buyAmount_ok hcapital hprice hrate ha
        cases h
        exact .bought market price rate amount hside ⟨hmarket, hprice, hrate, hpos, hsteps, hmin, hcost, rfl⟩
          hreference hcap hquote rfl

end Consider

/-! ## Decisions replayed -/

def sumOf (p : AllocationDecision → Bool) (value : AllocationDecision → ℚ) (ds : List AllocationDecision) : ℚ :=
  (ds.map fun d => if p d then value d else 0).sum

def soldBase (symbol : String) : List AllocationDecision → ℚ :=
  sumOf (fun d => d.side = .sell && d.symbol = symbol) AllocationDecision.amount

def spentQuote (asset : String) : List AllocationDecision → ℚ :=
  sumOf (fun d => d.side = .buy && d.quote = asset) AllocationDecision.quoteNotional

/-- The proceeds of the sells in a quote asset. -/
def proceeds (asset : String) : List AllocationDecision → ℚ :=
  sumOf (fun d => d.side = .sell && d.quote = asset) AllocationDecision.quoteNotional

/-- What the buys deploy and the sells release. -/
def deployedBy : List AllocationDecision → ℚ := sumOf (fun d => d.side = .buy) AllocationDecision.referenceNotional

def releasedBy : List AllocationDecision → ℚ := sumOf (fun d => d.side = .sell) AllocationDecision.referenceNotional

theorem sumOf_cons (p : AllocationDecision → Bool) (value : AllocationDecision → ℚ) (d : AllocationDecision)
    (ds : List AllocationDecision) : sumOf p value (d :: ds) = (if p d then value d else 0) + sumOf p value ds := rfl

/-- What every decision keeps, taken for itself. -/
structure Sized (e : Inputs) (d : AllocationDecision) : Prop where
  amount_pos : 0 < d.amount
  notional : d.quoteNotional = d.amount * d.price
  terms : ∃ market rate, e.markets d.symbol = some market ∧ d.referenceNotional = d.quoteNotional * rate ∧ 0 < rate ∧
    0 < d.price ∧ InSteps market d.amount ∧ (∀ least, market.minAmount = some least → least ≤ d.amount) ∧
      ∀ least, market.minCost = some least → least ≤ d.quoteNotional
  cap : d.side = .buy → d.referenceNotional ≤ e.capital * e.policy.maxOpportunityFraction

/-- What the decisions of a run keep of what was left at its start. -/
structure Limited (e : Inputs) (s : Remaining) (ds : List AllocationDecision) : Prop where
  base : ∀ symbol, soldBase symbol ds ≤ s.base symbol
  quote : ∀ l d r, ds = l ++ d :: r → ∀ asset, spentQuote asset (l ++ [d]) ≤ s.quote asset + proceeds asset l
  sized : ∀ d ∈ ds, Sized e d

/-- No buy takes the deployed value above the ceiling. -/
def UnderCeiling (e : Inputs) (deployed : ℚ) (ds : List AllocationDecision) : Prop :=
  ∀ l d r, ds = l ++ d :: r → d.side = .buy → deployed + deployedBy (l ++ [d]) - releasedBy l ≤ e.totalLimit

section Runs

variable {e : Inputs} {s s' : Remaining} {o : Opportunity} {d : AllocationDecision}

theorem Considered.sized (h : Considered e s o d s') : Sized e d := by
  cases h with
  | sold market price rate amount hside hd hheld hs =>
    obtain ⟨hfound, hprice, hrate, hpos, hsteps, hmin, hcost, rfl⟩ := hd
    refine ⟨hpos, rfl, ⟨market, rate, hfound, rfl, hrate, hprice, hsteps, hmin, hcost⟩, fun hbuy => ?_⟩
    rw [show (decision o market price rate amount).side = o.side from rfl, hside] at hbuy
    cases hbuy
  | bought market price rate amount hside hd hreference hcap hquote hs =>
    obtain ⟨hfound, hprice, hrate, hpos, hsteps, hmin, hcost, rfl⟩ := hd
    exact ⟨hpos, rfl, ⟨market, rate, hfound, rfl, hrate, hprice, hsteps, hmin, hcost⟩, fun _ => hcap⟩

theorem Sized.notional_pos (h : Sized e d) : 0 < d.quoteNotional ∧ 0 < d.referenceNotional := by
  obtain ⟨market, rate, -, href, hrate, hprice, -⟩ := h.terms
  have hquote : 0 < d.quoteNotional := by
    rw [h.notional]
    exact mul_pos h.amount_pos hprice
  exact ⟨hquote, by rw [href]; exact mul_pos hquote hrate⟩

/-- What a decision moves between the balances. -/
structure Moved (s : Remaining) (d : AllocationDecision) (s' : Remaining) : Prop where
  base : ∀ symbol, s'.base symbol = s.base symbol - if d.side = .sell && d.symbol = symbol then d.amount else 0
  quote : ∀ asset, s'.quote asset = s.quote asset + (if d.side = .sell && d.quote = asset then d.quoteNotional else 0) -
    if d.side = .buy && d.quote = asset then d.quoteNotional else 0
  base_nonneg : (∀ symbol, 0 ≤ s.base symbol) → ∀ symbol, 0 ≤ s'.base symbol
  quote_nonneg : (∀ asset, 0 ≤ s.quote asset) → ∀ asset, 0 ≤ s'.quote asset

theorem Considered.moved (h : Considered e s o d s') : Moved s d s' := by
  have hnotional := h.sized.notional_pos.1
  cases h with
  | sold market price rate amount hside hd hheld hs =>
    have hdside : d.side = .sell := by rw [hd.eq]; exact hside
    have hdsymbol : d.symbol = o.symbol := by rw [hd.eq]; rfl
    have hdquote : d.quote = market.quote := by rw [hd.eq]; rfl
    have hdamount : d.amount = amount := by rw [hd.eq]; rfl
    have hbase : ∀ symbol, s'.base symbol = s.base symbol - if d.side = .sell && d.symbol = symbol then d.amount else 0 := by
      intro symbol
      rw [hs, hdside, hdsymbol, hdamount]
      by_cases hsym : o.symbol = symbol
      · simp [hsym]
      · simp [update_of_ne (Ne.symm hsym), hsym]
    have hquote : ∀ asset, s'.quote asset = s.quote asset +
        (if d.side = .sell && d.quote = asset then d.quoteNotional else 0) -
          if d.side = .buy && d.quote = asset then d.quoteNotional else 0 := by
      intro asset
      rw [hdside, hdquote, hs]
      by_cases hasset : market.quote = asset
      · simp [hasset]
      · simp [update_of_ne (Ne.symm hasset), hasset]
    refine ⟨hbase, hquote, fun hnn symbol => ?_, fun hnn asset => ?_⟩
    · rw [hs]
      dsimp only
      by_cases hsym : symbol = o.symbol
      · rw [hsym, update_self]
        linarith
      · rw [update_of_ne hsym]
        exact hnn symbol
    · rw [hs]
      dsimp only
      by_cases hasset : asset = market.quote
      · rw [hasset, update_self]
        have := hnn market.quote
        linarith
      · rw [update_of_ne hasset]
        exact hnn asset
  | bought market price rate amount hside hd hreference hcap hquote hs =>
    have hdside : d.side = .buy := by rw [hd.eq]; exact hside
    have hdquote : d.quote = market.quote := by rw [hd.eq]; rfl
    refine ⟨fun symbol => ?_, fun asset => ?_, fun hnn symbol => ?_, fun hnn asset => ?_⟩
    · rw [hs, hdside]
      simp
    · rw [hdside, hdquote, hs]
      by_cases hasset : market.quote = asset
      · simp [hasset]
      · simp [update_of_ne (Ne.symm hasset), hasset]
    · rw [hs]
      exact hnn symbol
    · rw [hs]
      dsimp only
      by_cases hasset : asset = market.quote
      · rw [hasset, update_self]
        linarith
      · rw [update_of_ne hasset]
        exact hnn asset

/-- The balances bound every run. -/
theorem allocateFrom_limited (opportunities : List Opportunity) (hcapital : 0 ≤ e.capital)
    (hbase : ∀ symbol, 0 ≤ s.base symbol) (hquote : ∀ asset, 0 ≤ s.quote asset) :
    Limited e s (allocateFrom e s opportunities).1 := by
  induction opportunities generalizing s with
  | nil =>
    refine ⟨hbase, fun l d r h => ?_, fun d hd => (nomatch hd)⟩
    cases l <;> cases h
  | cons o rest ih =>
    unfold allocateFrom
    cases hc : consider e s o with
    | error reason => exact ih hbase hquote
    | ok next =>
      obtain ⟨d, s'⟩ := next
      have hd := consider_ok hcapital hc
      have hmoved := hd.moved
      have ih := ih (hmoved.base_nonneg hbase) (hmoved.quote_nonneg hquote)
      dsimp only
      generalize (allocateFrom e s' rest).1 = ds at ih
      refine ⟨fun symbol => ?_, fun l d' r h asset => ?_, fun d' hd' => ?_⟩
      · have hrest := ih.base symbol
        rw [hmoved.base] at hrest
        unfold soldBase at hrest ⊢
        rw [sumOf_cons]
        linarith
      · have hq := hmoved.quote asset
        cases l with
        | nil =>
          cases h
          have hnn := hmoved.quote_nonneg hquote asset
          have hspent : spentQuote asset ([] ++ [d]) = if d.side = .buy && d.quote = asset then d.quoteNotional else 0 := by
            show _ + 0 = _
            rw [add_zero]
          have hnone : proceeds asset [] = 0 := rfl
          rw [hspent, hnone]
          cases hside : d.side with
          | sell =>
            have := hquote asset
            simp
            exact this
          | buy =>
            rw [hside] at hq
            simp at hq ⊢
            linarith
        | cons d₀ l =>
          cases h
          have hrest := ih.quote l d' r rfl asset
          have hspent : spentQuote asset (d :: l ++ [d']) =
              (if d.side = .buy && d.quote = asset then d.quoteNotional else 0) + spentQuote asset (l ++ [d']) := rfl
          have hproceeds : proceeds asset (d :: l) =
              (if d.side = .sell && d.quote = asset then d.quoteNotional else 0) + proceeds asset l := rfl
          linarith
      · rcases mem_cons.mp hd' with rfl | hd'
        · exact hd.sized
        · exact ih.sized d' hd'

variable {opportunities : List Opportunity}

/-- A run that starts with its budget under the ceiling stays there. -/
theorem allocateFrom_ceiling (hcapital : 0 ≤ e.capital) {deployed : ℚ}
    (hs : s.reference ≤ e.totalLimit - deployed) : UnderCeiling e deployed (allocateFrom e s opportunities).1 := by
  induction opportunities generalizing s deployed with
  | nil =>
    intro l d r h
    cases l <;> cases h
  | cons o rest ih =>
    unfold allocateFrom
    cases hc : consider e s o with
    | error reason => exact ih hs
    | ok next =>
      obtain ⟨d, s'⟩ := next
      have hd := consider_ok hcapital hc
      have hfirst : d.side = .buy → deployed + d.referenceNotional ≤ e.totalLimit := by
        intro hbuy
        cases hd with
        | sold market price rate amount hside hd _ _ =>
          rw [hd.eq] at hbuy
          rw [show (decision o market price rate amount).side = o.side from rfl, hside] at hbuy
          cases hbuy
        | bought market price rate amount hside hd hreference _ _ _ => linarith
      have hnext : s'.reference ≤ e.totalLimit - (deployed + (if d.side = .buy then d.referenceNotional else 0) -
          if d.side = .sell then d.referenceNotional else 0) := by
        cases hd with
        | sold market price rate amount hside hd _ hs' =>
          have hdside : d.side = .sell := by rw [hd.eq]; exact hside
          rw [hdside, hs']
          apply le_trans (min_le_right _ _)
          simp
          linarith
        | bought market price rate amount hside hd _ _ _ hs' =>
          have hdside : d.side = .buy := by rw [hd.eq]; exact hside
          rw [hdside, hs']
          simp
          linarith
      have ih := ih hnext
      dsimp only
      generalize (allocateFrom e s' rest).1 = ds at ih
      intro l d' r h hbuy
      cases l with
      | nil =>
        cases h
        have hsum : deployedBy ([] ++ [d]) = d.referenceNotional := by
          show (if (decide (d.side = .buy)) = true then d.referenceNotional else 0) + 0 = _
          rw [if_pos (decide_eq_true hbuy), add_zero]
        have hnone : releasedBy [] = 0 := rfl
        rw [hsum, hnone, sub_zero]
        exact hfirst hbuy
      | cons d₀ l =>
        cases h
        have hrest := ih l d' r rfl hbuy
        have hdeployed : deployedBy (d :: l ++ [d']) =
            (if (decide (d.side = .buy)) = true then d.referenceNotional else 0) + deployedBy (l ++ [d']) := rfl
        have hreleased : releasedBy (d :: l) =
            (if (decide (d.side = .sell)) = true then d.referenceNotional else 0) + releasedBy l := rfl
        rw [hdeployed, hreleased]
        simp only [decide_eq_true_eq]
        linarith

/-- Without a budget that a sell restores, there is no buy. -/
theorem allocateFrom_stuck (hcapital : 0 ≤ e.capital) (hs : s.reference ≤ 0)
    (hsell : e.totalLimit ≤ 0 ∨ ∀ o ∈ opportunities, o.side = .sell → ∀ d s', consider e s o ≠ .ok (d, s')) :
    ∀ d ∈ (allocateFrom e s opportunities).1, d.side ≠ .buy := by
  induction opportunities generalizing s with
  | nil => exact fun d hd => (nomatch hd)
  | cons o rest ih =>
    unfold allocateFrom
    cases hc : consider e s o with
    | error reason =>
      exact ih hs (hsell.imp_right fun h o' ho' => h o' (mem_cons_of_mem _ ho'))
    | ok next =>
      obtain ⟨d, s'⟩ := next
      have hd := consider_ok hcapital hc
      have hpos := hd.sized.notional_pos.2
      cases hd with
      | bought market price rate amount hside hd hreference _ _ _ => linarith
      | sold market price rate amount hside hd _ hs' =>
        rcases hsell with hlimit | hnone
        · have hdside : d.side = .sell := by rw [hd.eq]; exact hside
          have hs'' : s'.reference ≤ 0 := by
            rw [hs']
            exact le_trans (min_le_left _ _) hlimit
          intro d' hd'
          rcases mem_cons.mp hd' with rfl | hd'
          · rw [hdside]
            intro hne
            cases hne
          · exact ih hs'' (.inl hlimit) d' hd'
        · exact absurd hc (hnone o mem_cons_self hside d s')

end Runs

/-! ## Any order -/

theorem Opportunity.Before.total (a b : Opportunity) : a.Before b ∨ b.Before a := by
  rcases lt_trichotomy a.side.rank b.side.rank with h | h | h
  · exact .inl (.inl h)
  · rcases lt_trichotomy a.score b.score with h' | h' | h'
    · exact .inr (.inr ⟨h.symm, .inl h'⟩)
    · rcases le_total a.opportunityId b.opportunityId with h'' | h''
      · exact .inl (.inr ⟨h, .inr ⟨h', h''⟩⟩)
      · exact .inr (.inr ⟨h.symm, .inr ⟨h'.symm, h''⟩⟩)
    · exact .inl (.inr ⟨h, .inl h'⟩)
  · exact .inr (.inl h)

theorem Opportunity.Before.trans {a b c : Opportunity} (h : a.Before b) (h' : b.Before c) : a.Before c := by
  rcases h with h | ⟨h, h₁⟩
  · rcases h' with h' | ⟨h', -⟩
    · exact .inl (lt_trans h h')
    · exact .inl (h' ▸ h)
  · rcases h' with h' | ⟨h', h₂⟩
    · exact .inl (h ▸ h')
    · refine .inr ⟨h.trans h', ?_⟩
      rcases h₁ with h₁ | ⟨h₁, hid⟩
      · rcases h₂ with h₂ | ⟨h₂, -⟩
        · exact .inl (lt_trans h₂ h₁)
        · exact .inl (h₂ ▸ h₁)
      · rcases h₂ with h₂ | ⟨h₂, hid'⟩
        · exact .inl (h₁ ▸ h₂)
        · exact .inr ⟨h₁.trans h₂, le_trans hid hid'⟩

theorem Opportunity.Before.id_eq {a b : Opportunity} (h : a.Before b) (h' : b.Before a) :
    a.opportunityId = b.opportunityId := by
  rcases h with h | ⟨h, h₁⟩
  · rcases h' with h' | ⟨h', -⟩ <;> omega
  · rcases h' with h' | ⟨h', h₂⟩
    · omega
    · rcases h₁ with h₁ | ⟨h₁, hid⟩
      · rcases h₂ with h₂ | ⟨h₂, -⟩
        · exact absurd (lt_trans h₁ h₂) (lt_irrefl _)
        · rw [h₂] at h₁
          exact absurd h₁ (lt_irrefl _)
      · rcases h₂ with h₂ | ⟨-, hid'⟩
        · rw [h₁] at h₂
          exact absurd h₂ (lt_irrefl _)
        · exact le_antisymm hid hid'

instance : Std.Total Opportunity.Before := ⟨Opportunity.Before.total⟩

instance : IsTrans Opportunity Opportunity.Before := ⟨fun _ _ _ => Opportunity.Before.trans⟩

/-- Opportunities with distinct ids are sorted in one way. -/
theorem insertionSort_perm {l l' : List Opportunity} (hperm : l.Perm l')
    (hids : (l.map Opportunity.opportunityId).Nodup) :
    l.insertionSort Opportunity.Before = l'.insertionSort Opportunity.Before := by
  refine @List.Perm.eq_of_pairwise _ Opportunity.Before _ _ ?_ ?_ ?_ ?_
  · intro a b ha hb hab hba
    have ha' : a ∈ l := (mem_insertionSort _).mp ha
    have hb' : b ∈ l := hperm.mem_iff.mpr ((mem_insertionSort _).mp hb)
    exact inj_on_of_nodup_map hids ha' hb' (hab.id_eq hba)
  · exact pairwise_insertionSort _ _
  · exact pairwise_insertionSort _ _
  · exact ((perm_insertionSort _ l).trans hperm).trans (perm_insertionSort _ l').symm

/-! ## The limits -/

/-- The ceiling holds at the start, there is no capital, or nothing that is offered can be sold. -/
def CeilingKnown (e : Inputs) (opportunities : List Opportunity) : Prop :=
  e.deployed ≤ e.totalLimit ∨ e.capital = 0 ∨
    ∀ o ∈ opportunities, o.side = .sell → ∀ d s', consider e e.remaining o ≠ .ok (d, s')

theorem get_nonneg {b : Balances} (h : ¬ b.rows.any (fun b => b.2 < 0) = true) (key : String) : 0 ≤ b.get key := by
  unfold Balances.get
  cases hf : b.find? key with
  | none => exact le_rfl
  | some row =>
    obtain ⟨hmem, -⟩ := Durable.Table.find?_eq_some.mp hf
    by_contra hneg
    apply h
    rw [any_eq_true]
    exact ⟨row, hmem, by simpa using hneg⟩

theorem allocate_ok {e : Inputs} {opportunities : List Opportunity} {ds : List AllocationDecision}
    {skipped : List SkipDecision} (h : allocateOpportunities e opportunities = .ok (ds, skipped)) :
    0 ≤ e.capital ∧ (∀ asset, 0 ≤ e.availableQuote.get asset) ∧ (∀ symbol, 0 ≤ e.availableBase.get symbol) ∧
      (ds, skipped) = allocateFrom e e.remaining (opportunities.insertionSort Opportunity.Before) := by
  unfold allocateOpportunities at h
  split at h
  · cases h
  · next hreference =>
    split at h
    · cases h
    · next hquote =>
      split at h
      · cases h
      · next hbase =>
        rw [not_or, not_lt, not_lt] at hreference
        exact ⟨hreference.1, get_nonneg hquote, get_nonneg hbase, (Except.ok.inj h).symm⟩

def plainMarket : MarketInfo where
  symbol := "BTC/JPY"
  base := "BTC"
  quote := "JPY"
  spot := true
  active := true
  amountStep := some 1
  minAmount := some 1
  minCost := none
  takerFeeRateBase := none
  takerFeeRateQuote := none
  marketOrderEnabled := true
  amountStep_pos := some_one_pos
  minAmount_pos := some_one_pos
  minCost_pos := none_pos
  takerFeeRateBase_range := by simp
  takerFeeRateQuote_range := by simp

def plainOpportunity (id : String) (side : Side) : Opportunity where
  opportunityId := id
  strategyId := "momentum"
  symbol := "BTC/JPY"
  side := side
  score := 1 / 2
  maxNotionalFraction := 1
  expiresAt := 100
  reasonCode := "signal"
  score_range := by norm_num
  maxNotionalFraction_range := by norm_num

/-- A capital of 100 with a ceiling of 100, and 30 units at the price 1; `deployed` is deployed. -/
def plainInputs (deployed : ℚ) : Inputs where
  markets := fun _ => some plainMarket
  prices := fun _ => some 1
  quoteToReference := fun _ => some 1
  availableQuote := .empty
  availableBase := ⟨[("BTC/JPY", 30)], by decide⟩
  capital := 100
  deployed := deployed
  policy := ⟨3 / 10, 1, by norm_num, by norm_num⟩
  now := 0

def plainRun (deployed : ℚ) : Except Raised (List AllocationDecision × List SkipDecision) :=
  allocateOpportunities (plainInputs deployed) [plainOpportunity "b" .buy, plainOpportunity "s" .sell]

/-- The sides and the amounts of a run's decisions. -/
def shown (x : Except Raised (List AllocationDecision × List SkipDecision)) : List (Side × ℚ × ℚ) :=
  match x with
  | .ok (ds, _) => ds.map fun d => (d.side, d.amount, d.referenceNotional)
  | .error _ => []

end Docich.Trading
