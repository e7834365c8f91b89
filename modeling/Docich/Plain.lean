import Mathlib

/-!
# Facts that definitions rest on

Instances and inequalities with a name, so that a definition does not carry its own proof of them.
-/

namespace Docich

instance lawful_chars : LawfulBEq (List Char) := inferInstance

instance lawful_codes : LawfulBEq (List ℕ) := inferInstance

instance lawful_level : LawfulBEq (String × ℤ) := inferInstance

instance ne_zero_byte : NeZero (255 + 1) := inferInstance

instance ne_zero_rank : NeZero (8 + 1) := inferInstance

theorem nonneg_zero : (0 : ℚ) ≤ 0 := le_rfl

theorem nonneg_one : (0 : ℚ) ≤ 1 := by norm_num

theorem nonneg_two : (0 : ℚ) ≤ 2 := by norm_num

theorem pos_one : (0 : ℚ) < 1 := by norm_num

theorem pos_two : (0 : ℚ) < 2 := by norm_num

theorem pos_ten : (0 : ℚ) < 10 := by norm_num

theorem pos_hundred : (0 : ℚ) < 100 := by norm_num

theorem none_pos (a : ℚ) (h : none = some a) : 0 < a := by cases h

theorem some_one_pos (a : ℚ) (h : some 1 = some a) : 0 < a := by
  cases h
  exact pos_one

theorem free_range (a : ℚ) (h : some 0 = some a) : 0 ≤ a ∧ a < 1 := by
  cases h
  exact ⟨nonneg_zero, pos_one⟩

end Docich
