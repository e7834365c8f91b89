import Mathlib.Algebra.Order.Floor.Ring
import Mathlib.Tactic.Ring

/-!
# Rounding to multiples of a unit

`roundDown u x` and `roundUp u x` are the multiples of `u` next to `x`, below and above. Each is off by less than a
unit; a bound that is itself a multiple of the unit survives the rounding down to it (`le_roundDown`).
-/

namespace Docich

variable {K : Type} [Field K] [LinearOrder K] [IsStrictOrderedRing K] [FloorRing K] {u x y : K}

def roundDown (u x : K) : K := ⌊x / u⌋ * u

def roundUp (u x : K) : K := ⌈x / u⌉ * u

/-- `y` is a whole number of units. -/
def IsMultiple (u y : K) : Prop := ∃ k : ℤ, y = k * u

omit [IsStrictOrderedRing K] in
theorem roundDown_multiple (u x : K) : IsMultiple u (roundDown u x) := ⟨_, rfl⟩

variable (hu : 0 < u)

include hu

theorem roundDown_le (x : K) : roundDown u x ≤ x := by
  have h : (⌊x / u⌋ : K) ≤ x / u := Int.floor_le _
  exact (le_div_iff₀ hu).mp h

theorem lt_roundDown_add (x : K) : x < roundDown u x + u := by
  have h : x / u < ⌊x / u⌋ + 1 := Int.lt_floor_add_one _
  have hx := (div_lt_iff₀ hu).mp h
  unfold roundDown
  linarith

theorem le_roundUp (x : K) : x ≤ roundUp u x := by
  have h : x / u ≤ (⌈x / u⌉ : K) := Int.le_ceil _
  exact (div_le_iff₀ hu).mp h

theorem roundUp_lt_add (x : K) : roundUp u x < x + u := by
  have h : (⌈x / u⌉ : K) < x / u + 1 := Int.ceil_lt_add_one _
  have hx : (⌈x / u⌉ : K) * u < (x / u + 1) * u := mul_lt_mul_of_pos_right h hu
  have hxu : (x / u + 1) * u = x + u := by field_simp
  unfold roundUp
  linarith

/-- A multiple below `x` is below `x` rounded down. -/
theorem le_roundDown (hy : IsMultiple u y) (h : y ≤ x) : y ≤ roundDown u x := by
  obtain ⟨k, rfl⟩ := hy
  have hk : k ≤ ⌊x / u⌋ := by
    apply Int.le_floor.mpr
    exact (le_div_iff₀ hu).mpr h
  have hc : (k : K) ≤ ⌊x / u⌋ := Int.cast_le.mpr hk
  exact mul_le_mul_of_nonneg_right hc hu.le

theorem roundDown_of_multiple (hy : IsMultiple u y) : roundDown u y = y :=
  le_antisymm (roundDown_le hu y) (le_roundDown hu hy le_rfl)

omit hu

omit [IsStrictOrderedRing K] [FloorRing K] [LinearOrder K] in
theorem IsMultiple.sub (hx : IsMultiple u x) (hy : IsMultiple u y) : IsMultiple u (x - y) := by
  obtain ⟨k, rfl⟩ := hx
  obtain ⟨m, rfl⟩ := hy
  refine ⟨k - m, ?_⟩
  push_cast
  ring

include hu in
theorem roundDown_nonneg (hx : 0 ≤ x) : 0 ≤ roundDown u x :=
  le_roundDown hu ⟨0, by simp⟩ hx

/-- Half a unit goes to the even neighbour. -/
def roundEven (x : K) : ℤ :=
  if x - ⌊x⌋ < 1 / 2 then ⌊x⌋
  else if 1 / 2 < x - ⌊x⌋ then ⌊x⌋ + 1
  else if Even ⌊x⌋ then ⌊x⌋ else ⌊x⌋ + 1

end Docich
