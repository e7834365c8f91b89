import Docich.FreeStrategy.Settle

/-!
# One observation of an experiment

`settlement`: what an observation settles of any experiment. The equity of the call is least at its start or its end,
where the broker looks at it, so that no drawdown in between is missed.
-/

namespace Docich.FreeStrategy

open Durable Trading List Fallible Table

variable {exp : Experiment} {seen : Observation} {s final : Run} {value after : ℚ} {reason : String} {out : Outcome}

/-- Cash and positions are those of an account, and an experiment that is not observed has no targets. -/
structure Experiment.Sound (exp : Experiment) : Prop where
  cash : 0 ≤ exp.account.cashJpy
  positions : ∀ p ∈ exp.account.positions, 0 < p.amount
  idle : ¬ exp.phase.Observed → exp.pending.rows = []

def Experiment.steps (exp : Experiment) (seen : Observation) (value : ℚ) : List (Run × Target × Run) :=
  FreeStrategy.steps exp.policy seen (exp.opening seen value).ordered (exp.opening seen value)

/-- The experiment ended for its drawdown: past its end it is due for review, before it is paused. -/
structure Experiment.Stopped (exp : Experiment) (seen : Observation) (out : Outcome) : Prop where
  phase : out.experiment.phase = if exp.expired seen then .reviewDue else .paused
  reason : out.experiment.lastError = some "drawdown_limit"
  pending : out.experiment.pending.rows = []

/-- What an observation settles, where the positions were worth `value`. -/
structure Settles (exp : Experiment) (seen : Observation) (value : ℚ) (out : Outcome) : Prop where
  pending : ∀ t ∈ out.experiment.pending, ∀ book, seen.books t.symbol = some book → book.asOf ≤ t.acceptedAt
  cash : 0 ≤ out.experiment.account.cashJpy
  positions : ∀ p ∈ out.experiment.account.positions, 0 < p.amount
  buys : ∀ x ∈ exp.steps seen value, ∀ fill, x.2.2.fills = x.1.fills ++ [fill] → fill.side = .buy →
    ∃ deployed, valuation exp.policy seen x.1.positions.rows = .ok deployed ∧
      x.2.2.cash = x.1.cash - (fill.amount * fill.price + fill.feeJpy) ∧
      fill.amount * fill.price + fill.feeJpy ≤ exp.policy.budget x.1.cash deployed
  order : out.fills.Pairwise fun a b => a.side = .buy → b.side = .buy
  peak : exp.account.peakEquity ≤ out.experiment.account.peakEquity
  starts : exp.phase.Observed → exp.Drawdown (exp.account.cashJpy + value) (exp.peak value) → exp.Stopped seen out
  points : ∀ x ∈ exp.steps seen value, ∀ worth, valuation exp.policy seen x.2.2.positions.rows = .ok worth →
    exp.Drawdown (x.2.2.cash + worth) (exp.peak value) → exp.Stopped seen out
  ends : ∀ sample ∈ out.sample, exp.Drawdown sample.equity out.experiment.account.peakEquity → exp.Stopped seen out

/-! ## The opening -/

theorem ordered_perm (s : Run) : s.ordered.Perm s.pending.rows := perm_insertionSort _ _

theorem ordered_pairwise (s : Run) : s.ordered.Pairwise s.before := by
  have htotal : Std.Total s.before := ⟨fun _ _ => le_total _ _⟩
  have htrans : IsTrans Target s.before := ⟨fun _ _ _ hab hbc => le_trans hab hbc⟩
  exact pairwise_insertionSort _ _

theorem ordered_lined (h : ∀ t ∈ s.pending, Validated seen t.symbol) : Lined seen s s.ordered where
  valid := fun t ht => h t ((ordered_perm s).mem_iff.mp ht)
  nodup := ((ordered_perm s).map Target.symbol).nodup_iff.mpr s.pending.nodup
  sells := by
    apply (ordered_pairwise s).imp
    intro a b hab hbuy
    rcases Prod.Lex.toLex_le_toLex.mp hab with hlt | ⟨heq, -⟩
    · exact absurd hlt (by simp [hbuy])
    · simpa [hbuy] using heq

theorem opening_pending (h : exp.closed seen ∨ exp.Drawdown (exp.account.cashJpy + value) (exp.peak value)) :
    (exp.opening seen value).pending = Table.empty := if_pos h

theorem steps_nil (h : (exp.opening seen value).pending.rows = []) : exp.steps seen value = [] := by
  unfold Experiment.steps Run.ordered
  rw [h]
  rfl

theorem forM_validate {symbols : List String} (h : ∀ symbol ∈ symbols, Validated seen symbol) :
    (symbols.forM fun symbol => do
      let _ ← validateMarket seen symbol
      Except.ok ()) = Except.ok () := by
  induction symbols with
  | nil => rfl
  | cons symbol symbols ih =>
    obtain ⟨venue, hvenue⟩ := h symbol mem_cons_self
    change ((validateMarket seen symbol >>= fun _ => Except.ok ()) >>= fun _ => symbols.forM _) = _
    rw [ok_bind hvenue]
    exact ih fun x hx => h x (mem_cons_of_mem _ hx)

/-! ## Without fills -/

theorem observedAs_settles (hs : exp.Sound) (hclosed : exp.closed seen) :
    Settles exp seen value (exp.observedAs seen (if exp.expired seen then .reviewDue else .paused) value) := by
  have hsteps : exp.steps seen value = [] := steps_nil (congrArg Table.rows (opening_pending (.inl hclosed)))
  have hstopped : exp.Drawdown (exp.account.cashJpy + value) (exp.peak value) →
      exp.Stopped seen (exp.observedAs seen (if exp.expired seen then .reviewDue else .paused) value) :=
    fun hdown => ⟨rfl, if_pos hdown, rfl⟩
  constructor
  · intro t ht
    exact absurd ht not_mem_empty
  · exact hs.cash
  · exact hs.positions
  · rw [hsteps]
    nofun
  · exact Pairwise.nil
  · exact le_max_left _ _
  · exact fun _ => hstopped
  · rw [hsteps]
    nofun
  · intro sample hsample
    cases hsample
    exact hstopped

/-! ## With fills -/

theorem total_opening (hps : ∀ p ∈ exp.account.positions, Validated seen p.symbol ∧ 0 < p.amount)
    (hvalue : valuation exp.policy seen exp.account.positions.rows = .ok value) :
    (exp.opening seen value).total exp.policy seen = exp.account.cashJpy + value := by
  rw [(valuation_ok hps hvalue).1]
  rfl

/-- A drawdown of the equity is one of all that is below it, and of all peaks above. -/
theorem Experiment.Drawdown.mono {equity equity' peak peak' : ℚ} (h : exp.Drawdown equity peak) (he : equity' ≤ equity)
    (hp : peak ≤ peak') : exp.Drawdown equity' peak' := by
  have hle := exp.policy.stopDrawdownFraction_le
  have hmul := mul_le_mul_of_nonneg_right hp (by linarith : 0 ≤ 1 - exp.policy.stopDrawdownFraction)
  exact (he.trans_lt h).trans_le hmul

theorem settledAs_settles (hs : (exp.opening seen value).Sound seen)
    (hpending : ∀ t ∈ (exp.opening seen value).pending, Validated seen t.symbol) (hopen : ¬ exp.closed seen)
    (hvalue : valuation exp.policy seen exp.account.positions.rows = .ok value)
    (hfinal : settleTargets exp.policy seen (exp.opening seen value).ordered (exp.opening seen value) = .ok final)
    (hafter : valuation exp.policy seen final.positions.rows = .ok after) :
    Settles exp seen value (exp.settledAs seen final value after) := by
  have hran := settleTargets_ran hs (ordered_lined hpending) hfinal
  have hexpired : ¬ exp.expired seen := fun h => hopen (.inl h)
  have htotal : final.total exp.policy seen = final.cash + after := by
    rw [(valuation_ok hran.sound.positions hafter).1]
    rfl
  have hstopped : exp.Drawdown (exp.account.cashJpy + value) (exp.peak value) ∨
      exp.Drawdown (final.cash + after) (max (exp.peak value) (final.cash + after)) →
      exp.Stopped seen (exp.settledAs seen final value after) := by
    intro h
    unfold Experiment.settledAs
    dsimp only
    rw [if_pos h]
    exact ⟨(if_neg hexpired).symm, rfl, rfl⟩
  have haccount : (exp.settledAs seen final value after).experiment.account =
      ⟨final.cash, final.positions, max (exp.peak value) (final.cash + after)⟩ := by
    unfold Experiment.settledAs
    dsimp only
    split <;> rfl
  constructor
  · intro t ht book hbook
    have hmem : t ∈ final.pending := by
      unfold Experiment.settledAs at ht
      dsimp only at ht
      split at ht
      · exact absurd ht not_mem_empty
      · exact ht
    obtain ⟨hstart, hwait⟩ := hran.pending t hmem
    obtain ⟨venue, hvenue⟩ := hpending t hstart
    have hsame := validateMarket_book hvenue
    rw [hbook] at hsame
    cases hsame
    exact hwait ((ordered_perm _).mem_iff.mpr hstart) venue hvenue
  · rw [haccount]
    exact hran.sound.cash
  · rw [haccount]
    exact fun p hp => (hran.sound.positions p hp).2
  · intro x hx fill hfill hside
    obtain ⟨-, -, ⟨venue, hstep⟩, -⟩ := hran.points x hx
    obtain ⟨before, target, next⟩ := x
    dsimp only at hfill hstep ⊢
    cases hstep with
    | waits => simp at hfill
    | passes => simp [Run.consume] at hfill
    | sold amount fill' _ _ _ _ hsell =>
      cases append_cancel_left hfill
      rw [hsell] at hside
      cases hside
    | bought amount deployed spent fill' _ _ hdeployed _ _ _ _ _ hbudget hbuy =>
      cases append_cancel_left hfill
      refine ⟨deployed, hdeployed, ?_, ?_⟩
      · rw [hbuy.2]
      · rw [hbuy.2]
        exact hbudget
  · obtain ⟨new, hnew, hpairs, -⟩ := hran.fills
    have hfills : (exp.settledAs seen final value after).fills = new := hnew
    rw [hfills]
    exact hpairs
  · rw [haccount]
    exact (le_max_left _ _).trans (le_max_left _ _)
  · exact fun _ h => hstopped (.inl h)
  · intro x hx worth hworth hdown
    obtain ⟨-, hsound, -, hle⟩ := hran.points x hx
    have hequity : x.2.2.total exp.policy seen = x.2.2.cash + worth := by
      rw [(valuation_ok hsound.positions hworth).1]
      rfl
    rw [htotal, total_opening hs.positions hvalue, hequity] at hle
    -- the equity of the call is least at its start or its end
    rcases min_le_iff.mp hle with h | h
    · exact hstopped (.inl (hdown.mono h le_rfl))
    · exact hstopped (.inr (hdown.mono h (le_max_left _ _)))
  · intro sample hsample hdown
    cases hsample
    rw [haccount] at hdown
    exact hstopped (.inr hdown)

/-! ## The observation -/

theorem validated_iff {symbol : String} :
    Validated seen symbol ↔ (validateMarket seen symbol).toOption.isSome = true := by
  unfold Validated
  cases validateMarket seen symbol with
  | ok venue => exact ⟨fun _ => rfl, fun _ => ⟨venue, rfl⟩⟩
  | error reason => simp [Except.toOption]

instance (symbol : String) : Decidable (Validated seen symbol) := decidable_of_iff _ validated_iff.symm

/-- Ten thousand yen, and two units to buy. -/
def buyer : Experiment where
  phase := .paperValidating
  createdAt := 0
  endAt := 100
  revision := 0
  policy := ⟨10000, 3 / 10, 1 / 10, 10, 1 / 100, 3600, by decide +kernel, by decide +kernel, by decide +kernel⟩
  account := ⟨10000, Table.empty, 10000⟩
  pending := ⟨[⟨"A/JPY", 2, 1, "r"⟩], by simp⟩
  lastError := none

/-- Bids of the amount below asks of a thousand units. -/
def quoted (bids : ℚ) (h : 0 < bids) : Observation where
  markets := fun _ => some
    { symbol := "A/JPY", base := "A", quote := "JPY", spot := true, active := true, amountStep := some 1
      minAmount := some 1, minCost := none, takerFeeRateBase := some 0, takerFeeRateQuote := some 0
      marketOrderEnabled := true, amountStep_pos := some_one_pos, minAmount_pos := some_one_pos, minCost_pos := none_pos
      takerFeeRateBase_range := free_range, takerFeeRateQuote_range := free_range }
  books := fun _ => some
    { bids := [⟨99, bids, by decide, h⟩], asks := [⟨100, 1000, by decide, by decide⟩]
      bids_ne_nil := by simp, asks_ne_nil := by simp, bids_sorted := by simp, asks_sorted := by simp
      asOf := 10, symbol := "A/JPY" }
  statuses := fun _ => some ⟨.none, some "NORMAL", 10⟩
  now := 11

theorem buyer_sound : buyer.Sound where
  cash := by decide
  positions := fun _ hp => absurd hp not_mem_empty
  idle := fun h => absurd h (by decide)

end Docich.FreeStrategy
