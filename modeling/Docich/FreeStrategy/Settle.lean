import Docich.FreeStrategy.Worth
import Docich.Trading.Settled

/-!
# What an observation settles

* `settleTarget_step` says once what a target can do to the account; the lemmas after it say what each outcome keeps.
* `settleTargets_ran` carries this through the run. Sells never lower what the account is worth and buys never raise
  it, so that with the sells first the least of the call is at its start or its end.
-/

namespace Docich.FreeStrategy

open Durable Trading List Fallible Table

variable {policy : Policy} {seen : Observation} {venue : Venue} {s s' final : Run} {t : Target} {ts : List Target}
  {symbol reason : String} {amount wanted value : ℚ}

/-! ## Orders -/

theorem orderAmount_le {side : Side} (h : 0 < orderAmount policy venue side wanted) :
    orderAmount policy venue side wanted ≤ wanted ∧
      orderAmount policy venue side wanted ≤ depthOf policy.bookParticipation (venue.book.levels side) := by
  have hdepth : depthOf policy.bookParticipation (venue.book.levels side) =
      ((venue.book.levels side).map DepthLevel.amount).sum * policy.bookParticipation := sum_map_mul_right ..
  unfold orderAmount at h ⊢
  obtain ⟨hround, -⟩ := roundDownTo_pos venue.amountStep_pos h
  have hle := roundDown_le venue.amountStep_pos (min wanted
    (((venue.book.levels side).map DepthLevel.amount).sum * policy.bookParticipation))
  rw [hround, hdepth]
  exact ⟨hle.trans (min_le_left _ _), hle.trans (min_le_right _ _)⟩

/-- The worst ask bounds what a buy comes to. -/
theorem ask_quote_le (ha : 0 ≤ amount) : quoteOf policy.bookParticipation (policy.factor .buy) venue.book.asks amount ≤
    amount * ((venue.book.worst .buy).price * policy.factor .buy) := by
  have hslip := policy.slippage_range.1
  have hfactor : 0 ≤ policy.factor .buy := by
    unfold Policy.factor
    linarith
  have hle := @Ladder.cost_add_le _ _ _ _ _ (fun v : DepthLevel => v.price * policy.factor .buy)
    (fun v => v.amount * policy.bookParticipation) venue.book.asks 0 amount _
    (fun v hv => mul_le_mul_of_nonneg_right (ask_le_worst venue v hv) hfactor) ha
    (mul_nonneg (venue.book.worst .buy).price_pos.le hfactor)
  rw [Ladder.cost_zero (amounts_nonneg policy.bookParticipation_pos _), zero_add, zero_add] at hle
  exact hle

/-! ## One target -/

/-- What a target can do to the account: wait for a newer book, pass without a fill, or be filled. -/
inductive Step (policy : Policy) (seen : Observation) (s : Run) (t : Target) (venue : Venue) : Run → Prop
  | waits (hold : venue.book.asOf ≤ t.acceptedAt) : Step policy seen s t venue s
  | passes (hnew : t.acceptedAt < venue.book.asOf) : Step policy seen s t venue (s.consume t)
  | sold (amount : ℚ) (fill : Fill) (hnew : t.acceptedAt < venue.book.asOf) (hside : t.quantity < s.held t.symbol)
      (ha : 0 < amount) (hle : amount + amount * venue.baseFee ≤ s.held t.symbol) (hfill : fill.side = .sell) :
      Step policy seen s t venue
        ⟨s.cash + quoteOf policy.bookParticipation (policy.factor .sell) venue.book.bids amount * (1 - venue.quoteFee),
          s.hold t.symbol (s.held t.symbol - (amount + amount * venue.baseFee)), s.pending.delete t.symbol,
          s.fills ++ [fill]⟩
  | bought (amount deployed spent : ℚ) (fill : Fill) (hnew : t.acceptedAt < venue.book.asOf)
      (hside : s.held t.symbol < t.quantity) (hdeployed : valuation policy seen s.positions.rows = .ok deployed)
      (ha : 0 < amount) (hdepth : amount ≤ depthOf policy.bookParticipation venue.book.asks)
      (hwithin : s.held t.symbol + (amount - amount * venue.baseFee) ≤ t.quantity)
      (hspent : spent =
        quoteOf policy.bookParticipation (policy.factor .buy) venue.book.asks amount * (1 + venue.quoteFee))
      (hcash : spent ≤ s.cash) (hbudget : spent ≤ policy.budget s.cash deployed)
      (hfill : fill.side = .buy ∧ fill.amount * fill.price + fill.feeJpy = spent) :
      Step policy seen s t venue
        ⟨s.cash - spent, s.hold t.symbol (s.held t.symbol + (amount - amount * venue.baseFee)),
          s.pending.delete t.symbol, s.fills ++ [fill]⟩

theorem fill_step (hnew : t.acceptedAt < venue.book.asOf) (hwanted : desired policy seen venue s t = .ok wanted)
    (ha : amount = orderAmount policy venue (s.side t) wanted) (hpos : 0 < amount) :
    Step policy seen s t venue (s.fill seen venue t amount
      (quoteOf policy.bookParticipation (policy.factor (s.side t)) (venue.book.levels (s.side t)) amount)) := by
  have hpos' := hpos
  rw [ha] at hpos'
  obtain ⟨hle, hdepth⟩ := orderAmount_le hpos'
  rw [← ha] at hle hdepth
  obtain ⟨hbase, hbase'⟩ := venue.baseFee_range
  obtain ⟨hquote, hquote'⟩ := venue.quoteFee_range
  unfold desired at hwanted
  unfold Run.fill
  cases hside : s.side t with
  | sell =>
    have hdelta : ¬ 0 < t.quantity - s.held t.symbol := by
      intro h
      simp [Run.side, h] at hside
    simp only [hside] at hwanted hdepth ⊢
    cases hwanted
    split
    · exact .passes hnew
    · next hheld =>
      rw [le_div_iff₀ (by linarith), abs_of_nonpos (not_lt.mp hdelta)] at hle
      rw [← mul_one_sub]
      refine .sold amount _ hnew ?_ hpos (not_lt.mp hheld) rfl
      nlinarith
  | buy =>
    have hdelta : 0 < t.quantity - s.held t.symbol := by
      by_contra h
      simp [Run.side, h] at hside
    simp only [hside] at hwanted hdepth ⊢
    obtain ⟨deployed, hdeployed, hrest⟩ := bind_ok hwanted
    cases hrest
    obtain ⟨hwithin, hbudget⟩ := le_min_iff.mp hle
    split
    · exact .passes hnew
    · next hcash =>
      have hfactor : 0 < policy.factor .buy := by
        have hslip := policy.slippage_range.1
        unfold Policy.factor
        linarith
      have hunit : 0 < (venue.book.worst .buy).price * policy.factor .buy * (1 + venue.quoteFee) :=
        mul_pos (mul_pos (venue.book.worst .buy).price_pos hfactor) (by linarith)
      rw [le_div_iff₀ (by linarith), abs_of_pos hdelta] at hwithin
      rw [le_div_iff₀ hunit] at hbudget
      -- without a budget there is no amount
      have hmax : max 0 (policy.budget s.cash deployed) = policy.budget s.cash deployed := by
        rcases max_choice 0 (policy.budget s.cash deployed) with h | h
        · rw [h] at hbudget
          exact absurd (mul_pos hpos hunit) (not_lt.mpr hbudget)
        · exact h
      rw [hmax] at hbudget
      have hgross := mul_le_mul_of_nonneg_right (@ask_quote_le policy venue amount hpos.le)
        (by linarith : 0 ≤ 1 + venue.quoteFee)
      refine .bought amount deployed _ _ hnew (sub_pos.mp hdelta) hdeployed hpos hdepth (by linarith) ?_
        (not_lt.mp hcash) ?_ ⟨rfl, ?_⟩
      · rw [mul_one_add]
        rfl
      · refine le_trans ?_ hbudget
        rw [mul_one_add, mul_assoc, mul_assoc] at hgross
        rw [mul_assoc (venue.book.worst .buy).price]
        exact hgross
      · dsimp only
        rw [mul_div_cancel₀ _ hpos.ne']

theorem settleTarget_step (hvenue : validateMarket seen t.symbol = .ok venue)
    (h : settleTarget policy seen s t = .ok s') : Step policy seen s t venue s' := by
  unfold settleTarget at h
  rw [ok_bind hvenue] at h
  split at h
  · next hold =>
    cases h
    exact .waits hold
  · next hnew =>
    have hnew := not_le.mp hnew
    obtain ⟨wanted, hwanted, hrest⟩ := bind_ok h
    dsimp only at hrest
    split at hrest
    · cases hrest
      exact .passes hnew
    · next hmin =>
      have hpos := not_le.mp (not_or.mp hmin).1
      split at hrest
      · cases hrest
        exact .passes hnew
      · cases hrest
        rw [quote_eq policy.bookParticipation_pos hpos.le]
        exact fill_step hnew hwanted rfl hpos

/-! ## Holdings -/

/-- Cash is not negative, and the positions are positive amounts of validated symbols. -/
structure Run.Sound (seen : Observation) (s : Run) : Prop where
  cash : 0 ≤ s.cash
  positions : ∀ p ∈ s.positions, Validated seen p.symbol ∧ 0 < p.amount

def Run.Valued (policy : Policy) (seen : Observation) (s : Run) : Prop :=
  ∀ p ∈ s.positions, Valuable policy seen p.symbol p.amount

/-- What the account is worth. -/
def Run.total (policy : Policy) (seen : Observation) (s : Run) : ℚ := s.cash + s.positions.sum (worth policy seen)

theorem mem_hold {p : Position} (h : p ∈ s.hold symbol amount) : p = ⟨symbol, amount⟩ ∧ 0 < amount ∨ p ∈ s.positions := by
  unfold Run.hold at h
  split at h
  · next hpos =>
    rcases mem_upsert.mp h with rfl | ⟨hp, -⟩
    · exact .inl ⟨rfl, hpos⟩
    · exact .inr hp
  · exact .inr (mem_delete.mp h).1

theorem held_hold {x : String} (hx : x ≠ symbol) : heldIn (s.hold symbol amount) x = s.held x := by
  unfold Run.hold Run.held heldIn
  split
  · rw [Table.find?_upsert, if_neg hx]
  · rw [Table.find?_delete, if_neg hx]

theorem find?_held {p : Position} (h : s.positions.find? symbol = some p) : p = ⟨symbol, s.held symbol⟩ := by
  obtain ⟨-, rfl⟩ := Table.find?_eq_some.mp h
  unfold Run.held heldIn
  rw [h]
  rfl

theorem sum_hold (hvenue : validateMarket seen symbol = .ok venue) (ha : 0 ≤ amount) :
    (s.hold symbol amount).sum (worth policy seen) =
      s.positions.sum (worth policy seen) - venue.worth policy (s.held symbol) + venue.worth policy amount := by
  have hold : ((s.positions.find? symbol).map (worth policy seen)).getD 0 = venue.worth policy (s.held symbol) := by
    cases hf : s.positions.find? symbol with
    | none =>
      have hzero : s.held symbol = 0 := by
        unfold Run.held heldIn
        rw [hf]
        rfl
      rw [hzero, Venue.worth_zero]
      rfl
    | some p =>
      rw [find?_held hf]
      exact worth_of hvenue
  unfold Run.hold
  split
  · rw [sum_upsert, hold, worth_of hvenue]
  · next hneg =>
    have hzero : amount = 0 := le_antisymm (not_lt.mp hneg) ha
    rw [sum_delete, hold, hzero, Venue.worth_zero, add_zero]

/-! ## What a target keeps -/

section Kept

variable (h : Step policy seen s t venue s') (hvenue : validateMarket seen t.symbol = .ok venue)

include h in
theorem Step.held {x : String} (hx : x ≠ t.symbol) : s'.held x = s.held x := by
  cases h with
  | waits => rfl
  | passes => rfl
  | sold => exact held_hold hx
  | bought => exact held_hold hx

include h in
theorem Step.pending {x : Target} (hx : x ∈ s'.pending) :
    x ∈ s.pending ∧ (x = t → venue.book.asOf ≤ t.acceptedAt) := by
  cases h with
  | waits hold => exact ⟨hx, fun _ => hold⟩
  | passes | sold | bought =>
    obtain ⟨hmem, hne⟩ := mem_delete.mp hx
    exact ⟨hmem, fun he => absurd (congrArg Target.symbol he) hne⟩

include h hvenue in
theorem Step.sound (hs : s.Sound seen) : s'.Sound seen := by
  have hfee := venue.quoteFee_range.2
  cases h with
  | waits => exact hs
  | passes => exact ⟨hs.cash, hs.positions⟩
  | sold amount fill _ _ ha =>
    constructor
    · have hslip := policy.slippage_range.2
      have hgross : 0 ≤ quoteOf policy.bookParticipation (policy.factor .sell) venue.book.bids amount := by
        have hmono := @Ladder.cost_mono _ _ _ _ _ (fun v : DepthLevel => v.price * policy.factor .sell)
          (fun v => v.amount * policy.bookParticipation) venue.book.bids 0 amount
          (fun v _ => mul_nonneg v.price_pos.le (by simpa [Policy.factor] using hslip)) ha.le
        rwa [Ladder.cost_zero (amounts_nonneg policy.bookParticipation_pos _)] at hmono
      exact add_nonneg hs.cash (mul_nonneg hgross (by linarith))
    · intro p hp
      rcases mem_hold hp with ⟨rfl, hpos⟩ | hp
      · exact ⟨⟨venue, hvenue⟩, hpos⟩
      · exact hs.positions p hp
  | bought amount deployed spent fill _ _ _ _ _ _ _ hcash =>
    constructor
    · exact sub_nonneg.mpr hcash
    · intro p hp
      rcases mem_hold hp with ⟨rfl, hpos⟩ | hp
      · exact ⟨⟨venue, hvenue⟩, hpos⟩
      · exact hs.positions p hp

include h hvenue in
/-- A sell never lowers what the account is worth, and is recorded as one. -/
theorem Step.total_sell (hside : t.quantity < s.held t.symbol) : s.total policy seen ≤ s'.total policy seen ∧
    ∃ new, s'.fills = s.fills ++ new ∧ ∀ fill ∈ new, fill.side = .sell := by
  cases h with
  | waits => exact ⟨le_rfl, [], by simp, by simp⟩
  | passes => exact ⟨le_rfl, [], by simp [Run.consume], by simp⟩
  | sold amount fill _ _ ha hle hfill =>
    have hsell := @worth_sell policy venue amount (s.held t.symbol) ha hle
    refine ⟨?_, [fill], rfl, by simp [hfill]⟩
    unfold Run.total
    dsimp only
    rw [sum_hold hvenue (sub_nonneg.mpr hle)]
    linarith
  | bought _ _ _ _ _ hbuy => exact absurd hbuy (not_lt.mpr hside.le)

theorem held_nonneg (hs : s.Sound seen) (symbol : String) : 0 ≤ s.held symbol := by
  unfold Run.held heldIn
  cases hf : s.positions.find? symbol with
  | none => exact le_rfl
  | some p => exact (hs.positions p (Table.find?_eq_some.mp hf).1).2.le

include h hvenue in
/-- A buy never raises what the account is worth, and is recorded as one. -/
theorem Step.total_buy (hs : s.Sound seen) (hside : s.held t.symbol ≤ t.quantity) :
    s'.total policy seen ≤ s.total policy seen ∧
      ∃ new, s'.fills = s.fills ++ new ∧ ∀ fill ∈ new, fill.side = .buy := by
  cases h with
  | waits => exact ⟨le_rfl, [], by simp, by simp⟩
  | passes => exact ⟨le_rfl, [], by simp [Run.consume], by simp⟩
  | sold _ _ _ hsell => exact absurd hsell (not_lt.mpr hside)
  | bought amount deployed spent fill _ _ _ ha hdepth _ hspent _ _ hfill =>
    have hbuy := @worth_buy policy venue amount (s.held t.symbol) ha hdepth
    have hfee := venue.baseFee_range.2
    have hnonneg : 0 ≤ s.held t.symbol + (amount - amount * venue.baseFee) :=
      add_nonneg (held_nonneg hs _) (by nlinarith)
    refine ⟨?_, [fill], rfl, by simp [hfill.1]⟩
    unfold Run.total
    dsimp only
    rw [sum_hold hvenue hnonneg, hspent]
    linarith

include h in
/-- The account stays valued where the bids can value what the target asks for. -/
theorem Step.valued (hv : s.Valued policy seen)
    (hbuy : t.acceptedAt < venue.book.asOf → s.held t.symbol < t.quantity →
      Valuable policy seen t.symbol t.quantity) : s'.Valued policy seen := by
  cases h with
  | waits => exact hv
  | passes => exact hv
  | sold amount fill _ _ ha hle =>
    intro p hp
    rcases mem_hold hp with ⟨rfl, hpos⟩ | hp
    · have hfee := venue.baseFee_range.1
      have hheld : 0 < s.held t.symbol := by nlinarith
      cases hf : s.positions.find? t.symbol with
      | none =>
        unfold Run.held heldIn at hheld
        rw [hf] at hheld
        exact absurd hheld (lt_irrefl 0)
      | some q =>
        have hq := hv q (Table.find?_eq_some.mp hf).1
        rw [find?_held hf] at hq
        exact hq.le hpos.le (by nlinarith)
    · exact hv p hp
  | bought amount _ _ _ hnew hside _ _ _ hwithin =>
    intro p hp
    rcases mem_hold hp with ⟨rfl, hpos⟩ | hp
    · exact (hbuy hnew hside).le hpos.le hwithin
    · exact hv p hp

end Kept

variable (hs : s.Sound seen)

include hs in
/-- Only the valuation before a buy fails a target. -/
theorem settleTarget_error (hvenue : validateMarket seen t.symbol = .ok venue)
    (h : settleTarget policy seen s t = .error reason) :
    reason = "valuation_depth_insufficient" ∧ ¬ s.Valued policy seen := by
  unfold settleTarget at h
  rw [ok_bind hvenue] at h
  split at h
  · cases h
  · cases hwanted : desired policy seen venue s t with
    | ok wanted =>
      rw [ok_bind hwanted] at h
      dsimp only at h
      repeat' split at h
      all_goals cases h
    | error e =>
      rw [hwanted] at h
      cases h
      unfold desired at hwanted
      dsimp only at hwanted
      split at hwanted
      · cases hwanted
      · cases hdeployed : valuation policy seen s.positions.rows with
        | ok deployed =>
          rw [hdeployed] at hwanted
          cases hwanted
        | error e =>
          rw [hdeployed] at hwanted
          cases hwanted
          obtain ⟨hreason, p, hp, hno⟩ := valuation_error hs.positions hdeployed
          exact ⟨hreason, fun hv => hno (hv p hp)⟩

/-! ## The run -/

/-- The steps of a run: the account before, the target, the account after. -/
def steps (policy : Policy) (seen : Observation) : List Target → Run → List (Run × Target × Run)
  | [], _ => []
  | t :: ts, s =>
    match settleTarget policy seen s t with
    | .ok s' => (s, t, s') :: steps policy seen ts s'
    | .error _ => []

/-- What the targets are promised: they are of validated symbols, one a symbol, and the sells come first. -/
structure Lined (seen : Observation) (s : Run) (ts : List Target) : Prop where
  valid : ∀ t ∈ ts, Validated seen t.symbol
  nodup : (ts.map Target.symbol).Nodup
  sells : ts.Pairwise fun a b => s.held a.symbol ≤ a.quantity → s.held b.symbol ≤ b.quantity

theorem Lined.tail (h : Lined seen s (t :: ts)) (hheld : ∀ x, x ≠ t.symbol → s'.held x = s.held x) :
    Lined seen s' ts ∧ ∀ x ∈ ts, s'.held x.symbol = s.held x.symbol := by
  obtain ⟨hnot, hnodup⟩ := nodup_cons.mp h.nodup
  have hsame : ∀ x ∈ ts, s'.held x.symbol = s.held x.symbol := by
    intro x hx
    apply hheld
    intro he
    exact hnot (he ▸ mem_map_of_mem hx)
  refine ⟨⟨fun x hx => h.valid x (mem_cons_of_mem _ hx), hnodup, ?_⟩, hsame⟩
  apply (pairwise_cons.mp h.sells).2.imp_of_mem
  intro a b ha hb hab
  rwa [hsame a ha, hsame b hb]

/-- What a run of the targets keeps. -/
structure Ran (policy : Policy) (seen : Observation) (ts : List Target) (s final : Run) : Prop where
  sound : final.Sound seen
  pending : ∀ t ∈ final.pending, t ∈ s.pending ∧
    (t ∈ ts → ∀ venue, validateMarket seen t.symbol = .ok venue → venue.book.asOf ≤ t.acceptedAt)
  fills : ∃ new, final.fills = s.fills ++ new ∧ (new.Pairwise fun a b => a.side = .buy → b.side = .buy) ∧
    ((∀ t ∈ ts, s.held t.symbol ≤ t.quantity) → ∀ fill ∈ new, fill.side = .buy)
  falls : (∀ t ∈ ts, s.held t.symbol ≤ t.quantity) → final.total policy seen ≤ s.total policy seen
  points : ∀ x ∈ steps policy seen ts s, x.1.Sound seen ∧ x.2.2.Sound seen ∧
    (∃ venue, Step policy seen x.1 x.2.1 venue x.2.2) ∧
    min (s.total policy seen) (final.total policy seen) ≤ x.2.2.total policy seen

include hs

theorem settleTargets_ran (hts : Lined seen s ts)
    (h : settleTargets policy seen ts s = .ok final) : Ran policy seen ts s final := by
  induction ts generalizing s with
  | nil =>
    cases h
    exact ⟨hs, fun t ht => ⟨ht, fun hn => nomatch hn⟩, ⟨[], by simp, Pairwise.nil, by simp⟩, fun _ => le_rfl, nofun⟩
  | cons t ts ih =>
    obtain ⟨s', hs', hrest⟩ := bind_ok h
    obtain ⟨venue, hvenue⟩ := hts.valid t mem_cons_self
    have hstep := settleTarget_step hvenue hs'
    have hsound := hstep.sound hvenue hs
    obtain ⟨htail, hsame⟩ := hts.tail fun x hx => hstep.held hx
    have hran := ih hsound htail hrest
    obtain ⟨new, hnew, hpairs, hbuys⟩ := hran.fills
    have hsteps : steps policy seen (t :: ts) s = (s, t, s') :: steps policy seen ts s' := by
      rw [steps, hs']
    -- once a target buys, all later ones do
    have hlater : s.held t.symbol ≤ t.quantity → ∀ x ∈ ts, s'.held x.symbol ≤ x.quantity := by
      intro hbuy x hx
      rw [hsame x hx]
      exact (pairwise_cons.mp hts.sells).1 x hx hbuy
    refine ⟨hran.sound, ?_, ?_, ?_, ?_⟩
    · intro x hx
      obtain ⟨hx', hwait⟩ := hran.pending x hx
      obtain ⟨hmem, hhead⟩ := hstep.pending hx'
      refine ⟨hmem, ?_⟩
      intro hin w hw
      rcases mem_cons.mp hin with rfl | hin
      · rw [hvenue] at hw
        cases hw
        exact hhead rfl
      · exact hwait hin w hw
    · by_cases hbuy : s.held t.symbol ≤ t.quantity
      · obtain ⟨-, first, hfirst, hside⟩ := hstep.total_buy hvenue hs hbuy
        have hall : ∀ fill ∈ first ++ new, fill.side = .buy := by
          intro fill hfill
          rcases mem_append.mp hfill with hfill | hfill
          · exact hside fill hfill
          · exact hbuys (hlater hbuy) fill hfill
        refine ⟨first ++ new, by rw [hnew, hfirst, append_assoc], ?_, fun _ => hall⟩
        exact pairwise_of_forall_mem_list fun a _ b hb _ => hall b hb
      · obtain ⟨-, first, hfirst, hside⟩ := hstep.total_sell hvenue (not_le.mp hbuy)
        refine ⟨first ++ new, by rw [hnew, hfirst, append_assoc], ?_,
          fun hall => absurd (hall t mem_cons_self) hbuy⟩
        have hsell : ∀ a ∈ first, a.side = .buy → ∀ b : Fill, b.side = .buy := by
          intro a ha hab
          rw [hside a ha] at hab
          cases hab
        apply pairwise_append.mpr
        exact ⟨pairwise_of_forall_mem_list fun a ha b _ hab => hsell a ha hab b, hpairs,
          fun a ha b _ hab => hsell a ha hab b⟩
    · intro hall
      have hbuy := hall t mem_cons_self
      exact (hran.falls (hlater hbuy)).trans (hstep.total_buy hvenue hs hbuy).1
    · intro x hx
      rw [hsteps] at hx
      by_cases hbuy : s.held t.symbol ≤ t.quantity
      · have hdown := (hstep.total_buy hvenue hs hbuy).1
        have hfinal := hran.falls (hlater hbuy)
        rcases mem_cons.mp hx with rfl | hx
        · exact ⟨hs, hsound, ⟨venue, hstep⟩, (min_le_right _ _).trans hfinal⟩
        · obtain ⟨h1, h2, h3, h4⟩ := hran.points x hx
          rw [min_eq_right hfinal] at h4
          exact ⟨h1, h2, h3, (min_le_right _ _).trans h4⟩
      · have hup := (hstep.total_sell hvenue (not_le.mp hbuy)).1
        rcases mem_cons.mp hx with rfl | hx
        · exact ⟨hs, hsound, ⟨venue, hstep⟩, (min_le_left _ _).trans hup⟩
        · obtain ⟨h1, h2, h3, h4⟩ := hran.points x hx
          exact ⟨h1, h2, h3, (min_le_min_right _ hup).trans h4⟩

/-- Where the bids can value what every buy asks for, the run ends, and the account can be valued. -/
theorem settleTargets_valued (hts : Lined seen s ts) (hv : s.Valued policy seen)
    (hbuys : ∀ t ∈ ts, ∀ venue, validateMarket seen t.symbol = .ok venue → t.acceptedAt < venue.book.asOf →
      s.held t.symbol < t.quantity → Valuable policy seen t.symbol t.quantity) :
    ∃ final, settleTargets policy seen ts s = .ok final ∧ final.Valued policy seen := by
  induction ts generalizing s with
  | nil => exact ⟨s, rfl, hv⟩
  | cons t ts ih =>
    obtain ⟨venue, hvenue⟩ := hts.valid t mem_cons_self
    cases hs' : settleTarget policy seen s t with
    | error reason => exact absurd hv (settleTarget_error hs hvenue hs').2
    | ok s' =>
      have hstep := settleTarget_step hvenue hs'
      obtain ⟨htail, hsame⟩ := hts.tail fun x hx => hstep.held hx
      have hv' := hstep.valued hv (hbuys t mem_cons_self venue hvenue)
      obtain ⟨final, hfinal, hvalued⟩ := ih (hstep.sound hvenue hs) htail hv' (by
        intro x hx w hw hnew hheld
        rw [hsame x hx] at hheld
        exact hbuys x (mem_cons_of_mem _ hx) w hw hnew hheld)
      refine ⟨final, ?_, hvalued⟩
      unfold settleTargets
      rw [ok_bind hs']
      exact hfinal

theorem settleTargets_error (hts : Lined seen s ts)
    (h : settleTargets policy seen ts s = .error reason) : reason = "valuation_depth_insufficient" := by
  induction ts generalizing s with
  | nil => cases h
  | cons t ts ih =>
    obtain ⟨venue, hvenue⟩ := hts.valid t mem_cons_self
    unfold settleTargets at h
    cases hs' : settleTarget policy seen s t with
    | error e =>
      rw [hs'] at h
      cases h
      exact (settleTarget_error hs hvenue hs').1
    | ok s' =>
      have hstep := settleTarget_step hvenue hs'
      rw [ok_bind hs'] at h
      exact ih (hstep.sound hvenue hs) (hts.tail fun x hx => hstep.held hx).1 h

end Docich.FreeStrategy
