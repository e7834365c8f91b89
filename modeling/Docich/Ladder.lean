import Mathlib.Algebra.Order.Field.Basic
import Mathlib.Algebra.Order.BigOperators.Group.List
import Mathlib.Tactic.FieldSimp
import Mathlib.Tactic.Linarith
import Mathlib.Tactic.Ring

/-!
# Ladders of levels

A ladder is a list of levels that are used up one after another. `cost` is what a quantity costs on it, `reach` the
quantity that a budget pays for, and `left` what remains of the budget.

* `cost_reach`: what a budget reaches costs what it leaves.
* `cost_mono`: less costs less, so a quantity within the reach of a budget costs at most that budget (`cost_le`).
* `cost_add_le`, `le_cost`: a bound on the prices bounds the cost.
* `cost_add_le_add`: with the dearest levels first, parts come to at least what the whole does.
-/

namespace Ladder

open List

variable {α K : Type} [Field K] [LinearOrder K] [IsStrictOrderedRing K]

/-- What the quantity costs, level by level. -/
def cost (price amount : α → K) : List α → K → K
  | [], _ => 0
  | v :: vs, q => min q (amount v) * price v + cost price amount vs (q - min q (amount v))

/-- What is taken of a level for a budget. -/
def take (unit amount : α → K) (v : α) (b : K) : K := min (amount v) (b / unit v)

def reach (unit amount : α → K) : List α → K → K
  | [], _ => 0
  | v :: vs, b => take unit amount v b + reach unit amount vs (b - take unit amount v b * unit v)

def left (unit amount : α → K) : List α → K → K
  | [], b => b
  | v :: vs, b => left unit amount vs (b - take unit amount v b * unit v)

/-- Every level has an amount, at a positive unit cost. -/
structure Positive (unit amount : α → K) (vs : List α) : Prop where
  unit : ∀ v ∈ vs, 0 < unit v
  amount : ∀ v ∈ vs, 0 < amount v

variable {price unit amount : α → K} {v : α} {vs : List α} {b q q' : K}

omit [IsStrictOrderedRing K] in
theorem cost_cons : cost price amount (v :: vs) q =
    min q (amount v) * price v + cost price amount vs (q - min q (amount v)) := rfl

omit [IsStrictOrderedRing K] in
theorem reach_cons : reach unit amount (v :: vs) b =
    take unit amount v b + reach unit amount vs (b - take unit amount v b * unit v) := rfl

omit [IsStrictOrderedRing K] in
theorem left_cons : left unit amount (v :: vs) b = left unit amount vs (b - take unit amount v b * unit v) := rfl

variable (h : Positive unit amount (v :: vs))

include h

omit [IsStrictOrderedRing K] in
theorem Positive.tail : Positive unit amount vs where
  unit := fun w hw => h.unit w (mem_cons_of_mem _ hw)
  amount := fun w hw => h.amount w (mem_cons_of_mem _ hw)

theorem take_nonneg (hb : 0 ≤ b) : 0 ≤ take unit amount v b :=
  le_min (h.amount v mem_cons_self).le (div_nonneg hb (h.unit v mem_cons_self).le)

theorem take_cost_le : take unit amount v b * unit v ≤ b :=
  (le_div_iff₀ (h.unit v mem_cons_self)).mp (min_le_right _ _)

omit [IsStrictOrderedRing K] in
/-- A level that is not used up takes the rest of the budget. -/
theorem take_cost (hlt : take unit amount v b < amount v) :
    take unit amount v b * unit v = b := by
  have hne : unit v ≠ 0 := (h.unit v mem_cons_self).ne'
  have htake : take unit amount v b = b / unit v := by
    unfold take at hlt ⊢
    rcases min_choice (amount v) (b / unit v) with hmin | hmin
    · rw [hmin] at hlt
      exact absurd hlt (lt_irrefl _)
    · exact hmin
  rw [htake]
  exact div_mul_cancel₀ b hne

omit h

omit [IsStrictOrderedRing K] in
theorem cost_zero (ha : ∀ v ∈ vs, 0 ≤ amount v) : cost price amount vs 0 = 0 := by
  induction vs with
  | nil => rfl
  | cons v vs ih =>
    have hv : min 0 (amount v) = 0 := min_eq_left (ha v mem_cons_self)
    rw [cost_cons, hv, zero_mul, sub_zero, zero_add]
    exact ih fun w hw => ha w (mem_cons_of_mem _ hw)

theorem cost_mono (hp : ∀ v ∈ vs, 0 ≤ price v) (h : q ≤ q') : cost price amount vs q ≤ cost price amount vs q' := by
  induction vs generalizing q q' with
  | nil => exact le_rfl
  | cons v vs ih =>
    have hmin : min q (amount v) ≤ min q' (amount v) := min_le_min_right _ h
    have hrest : q - min q (amount v) ≤ q' - min q' (amount v) := by
      rcases le_total q (amount v) with hq | hq
      · rw [min_eq_left hq, sub_self]
        exact sub_nonneg.mpr (min_le_left _ _)
      · rw [min_eq_right hq, min_eq_right (hq.trans h)]
        linarith
    have hfirst := mul_le_mul_of_nonneg_right hmin (hp v mem_cons_self)
    have hlast := ih (fun w hw => hp w (mem_cons_of_mem _ hw)) hrest
    rw [cost_cons, cost_cons]
    linarith

omit [IsStrictOrderedRing K] in
theorem cost_scale (k : K) : cost (fun v => price v * k) amount vs q = cost price amount vs q * k := by
  induction vs generalizing q with
  | nil => simp [cost]
  | cons v vs ih =>
    rw [cost_cons, cost_cons, ih]
    ring

theorem sub_min_le_total (ha : ∀ w ∈ vs, 0 ≤ amount w) (hle : q ≤ ((v :: vs).map amount).sum) :
    q - min q (amount v) ≤ (vs.map amount).sum := by
  rw [map_cons, sum_cons] at hle
  rcases le_total q (amount v) with h | h
  · rw [min_eq_left h, sub_self]
    apply sum_nonneg
    intro x hx
    obtain ⟨w, hw, rfl⟩ := mem_map.mp hx
    exact ha w hw
  · rw [min_eq_right h]
    linarith

/-- At one price, the levels only have to be deep enough. -/
theorem cost_const {k : K} (ha : ∀ w ∈ vs, 0 ≤ amount w) (hq : 0 ≤ q) (hle : q ≤ (vs.map amount).sum) :
    cost (fun _ => k) amount vs q = q * k := by
  induction vs generalizing q with
  | nil =>
    have hzero : q = 0 := le_antisymm hle hq
    rw [hzero, zero_mul]
    rfl
  | cons v vs ih =>
    have hrest : ∀ w ∈ vs, 0 ≤ amount w := fun w hw => ha w (mem_cons_of_mem _ hw)
    rw [cost_cons, ih hrest (sub_nonneg.mpr (min_le_left _ _)) (sub_min_le_total hrest hle)]
    ring

/-! ## Bounds by one price -/

/-- Where no level costs more than `k`, more of the quantity adds at most `k` a unit. -/
theorem cost_add_le {k : K} (hp : ∀ w ∈ vs, price w ≤ k) (hd : 0 ≤ q') (hk : 0 ≤ k) :
    cost price amount vs (q + q') ≤ cost price amount vs q + q' * k := by
  induction vs generalizing q q' with
  | nil =>
    have hadded : 0 ≤ q' * k := mul_nonneg hd hk
    simpa [cost] using hadded
  | cons v vs ih =>
    have hlow : min q (amount v) ≤ min (q + q') (amount v) := min_le_min_right _ (by linarith)
    have hhigh : min (q + q') (amount v) ≤ min q (amount v) + q' := by
      rcases min_choice q (amount v) with h | h
      · rw [h]
        exact min_le_left _ _
      · rw [h]
        exact (min_le_right _ _).trans (by linarith)
    have hrest := @ih (q - min q (amount v)) (q' - (min (q + q') (amount v) - min q (amount v)))
      (fun w hw => hp w (mem_cons_of_mem _ hw)) (by linarith)
    have hv := mul_le_mul_of_nonneg_left (hp v mem_cons_self) (sub_nonneg.mpr hlow)
    have hsplit : q - min q (amount v) + (q' - (min (q + q') (amount v) - min q (amount v))) =
        q + q' - min (q + q') (amount v) := by ring
    rw [hsplit] at hrest
    rw [cost_cons, cost_cons]
    linarith

/-- Where no level costs less than `k`, neither does a quantity that the levels hold. -/
theorem le_cost {k : K} (ha : ∀ w ∈ vs, 0 ≤ amount w) (hp : ∀ w ∈ vs, k ≤ price w) (hq : 0 ≤ q)
    (hle : q ≤ (vs.map amount).sum) : q * k ≤ cost price amount vs q := by
  induction vs generalizing q with
  | nil =>
    have hzero : q = 0 := le_antisymm hle hq
    simp [hzero, cost]
  | cons v vs ih =>
    have hrest : ∀ w ∈ vs, 0 ≤ amount w := fun w hw => ha w (mem_cons_of_mem _ hw)
    have htail := ih hrest (fun w hw => hp w (mem_cons_of_mem _ hw)) (sub_nonneg.mpr (min_le_left _ _))
      (sub_min_le_total hrest hle)
    have hv := mul_le_mul_of_nonneg_left (hp v mem_cons_self) (le_min hq (ha v mem_cons_self))
    rw [cost_cons]
    linarith

/-- With the dearest levels first, two parts come to at least what the whole does. -/
theorem cost_add_le_add (ha : ∀ w ∈ vs, 0 ≤ amount w) (hp : ∀ w ∈ vs, 0 ≤ price w)
    (hs : vs.Pairwise fun v w => price w ≤ price v) (hq : 0 ≤ q) (hq' : 0 ≤ q') :
    cost price amount vs (q + q') ≤ cost price amount vs q + cost price amount vs q' := by
  induction vs generalizing q q' with
  | nil => simp [cost]
  | cons v vs ih =>
    obtain ⟨hhead, htail⟩ := pairwise_cons.mp hs
    have hv := hp v mem_cons_self
    have hrest : ∀ w ∈ vs, 0 ≤ amount w := fun w hw => ha w (mem_cons_of_mem _ hw)
    have hbest : ∀ w ∈ v :: vs, price w ≤ price v := by
      intro w hw
      rcases mem_cons.mp hw with rfl | hw
      · exact le_rfl
      · exact hhead w hw
    -- a part within the first level costs that level's price
    have hfirst : ∀ x, x ≤ amount v → cost price amount (v :: vs) x = x * price v := by
      intro x hx
      rw [cost_cons, min_eq_left hx, sub_self, cost_zero hrest, add_zero]
    rcases le_total q' (amount v) with h' | h'
    · rw [hfirst q' h']
      exact cost_add_le hbest hq' hv
    rcases le_total q (amount v) with h | h
    · rw [hfirst q h, add_comm q q', add_comm (q * price v)]
      exact cost_add_le hbest hq hv
    have hboth := @cost_add_le _ _ _ _ _ price amount vs (q - amount v + (q' - amount v)) (amount v) _ hhead
      (ha v mem_cons_self) hv
    have hparts := ih hrest (fun w hw => hp w (mem_cons_of_mem _ hw)) htail (sub_nonneg.mpr h)
      (sub_nonneg.mpr h')
    have hsplit : q - amount v + (q' - amount v) + amount v = q + q' - amount v := by ring
    rw [hsplit] at hboth
    rw [cost_cons, cost_cons, cost_cons, min_eq_right h, min_eq_right h', min_eq_right (by linarith)]
    linarith

/-! ## The reach of a budget -/

omit [IsStrictOrderedRing K] in
theorem reach_zero (h : Positive unit amount vs) : reach unit amount vs 0 = 0 := by
  induction vs with
  | nil => rfl
  | cons v vs ih =>
    have htake : take unit amount v 0 = 0 := by
      unfold take
      rw [zero_div]
      exact min_eq_right (h.amount v mem_cons_self).le
    rw [reach_cons, htake, zero_mul, sub_zero, zero_add]
    exact ih h.tail

omit [IsStrictOrderedRing K] in
theorem left_zero (h : Positive unit amount vs) : left unit amount vs 0 = 0 := by
  induction vs with
  | nil => rfl
  | cons v vs ih =>
    have htake : take unit amount v 0 = 0 := by
      unfold take
      rw [zero_div]
      exact min_eq_right (h.amount v mem_cons_self).le
    rw [left_cons, htake, zero_mul, sub_zero]
    exact ih h.tail

theorem reach_nonneg (h : Positive unit amount vs) (hb : 0 ≤ b) : 0 ≤ reach unit amount vs b := by
  induction vs generalizing b with
  | nil => exact le_rfl
  | cons v vs ih =>
    exact add_nonneg (take_nonneg h hb) (ih h.tail (sub_nonneg.mpr (take_cost_le h)))

theorem left_nonneg (h : Positive unit amount vs) (hb : 0 ≤ b) : 0 ≤ left unit amount vs b := by
  induction vs generalizing b with
  | nil => exact hb
  | cons v vs ih =>
    exact ih h.tail (sub_nonneg.mpr (take_cost_le h))

theorem reach_le_total : reach unit amount vs b ≤ (vs.map amount).sum := by
  induction vs generalizing b with
  | nil => exact le_rfl
  | cons v vs ih =>
    exact add_le_add (min_le_left _ _) ih

include h in
/-- At any prices, what a budget reaches costs level by level what the budget takes there. -/
theorem cost_reach_cons :
    cost price amount (v :: vs) (reach unit amount (v :: vs) b) =
      take unit amount v b * price v +
        cost price amount vs (reach unit amount vs (b - take unit amount v b * unit v)) := by
  rcases (min_le_left (amount v) (b / unit v)).lt_or_eq with hlt | heq
  · -- the budget ends at this level
    have hdone : b - take unit amount v b * unit v = 0 := sub_eq_zero.mpr (take_cost h hlt).symm
    have htake : take unit amount v b ≤ amount v := hlt.le
    rw [reach_cons, hdone, reach_zero h.tail, add_zero, cost_cons, min_eq_left htake, sub_self]
  · have htake : take unit amount v b = amount v := heq
    have hrest := reach_nonneg h.tail (sub_nonneg.mpr (take_cost_le (b := b) h))
    rw [reach_cons, cost_cons]
    rw [htake] at hrest ⊢
    rw [min_eq_right (by linarith), add_sub_cancel_left]

theorem cost_reach (h : Positive unit amount vs) (hb : 0 ≤ b) :
    cost unit amount vs (reach unit amount vs b) = b - left unit amount vs b := by
  induction vs generalizing b with
  | nil => simp [cost, left]
  | cons v vs ih =>
    rw [cost_reach_cons h, ih h.tail (sub_nonneg.mpr (take_cost_le h)), left_cons]
    ring

/-- A quantity within the reach of a budget costs at most the budget. -/
theorem cost_le (h : Positive unit amount vs) (hb : 0 ≤ b) (hq : q ≤ reach unit amount vs b) :
    cost unit amount vs q ≤ b := by
  have hmono := @cost_mono _ _ _ _ _ unit amount _ _ _ (fun v hv => (h.unit v hv).le) hq
  have hleft := left_nonneg h hb
  rw [cost_reach h hb] at hmono
  linarith

/-- At one unit cost, the reach is the lesser of what the budget and the levels allow. -/
theorem reach_const {k : K} (h : Positive (fun _ => k) amount vs) (hk : 0 < k) (hb : 0 ≤ b) :
    reach (fun _ => k) amount vs b = min (b / k) (vs.map amount).sum := by
  induction vs generalizing b with
  | nil =>
    have hdiv : 0 ≤ b / k := div_nonneg hb hk.le
    simp [reach, hdiv]
  | cons v vs ih =>
    have htotal : 0 ≤ (vs.map amount).sum := by
      apply sum_nonneg
      intro x hx
      obtain ⟨w, hw, rfl⟩ := mem_map.mp hx
      exact (h.tail.amount w hw).le
    rw [reach_cons, ih h.tail (sub_nonneg.mpr (take_cost_le h)), map_cons, sum_cons]
    unfold take
    rw [sub_div, mul_div_assoc, div_self hk.ne', mul_one]
    rcases le_total (amount v) (b / k) with hle | hle
    · rw [min_eq_left hle, ← min_add_add_left, add_sub_cancel]
    · rw [min_eq_right hle, sub_self, min_eq_left htotal, add_zero, min_eq_left]
      linarith

end Ladder
