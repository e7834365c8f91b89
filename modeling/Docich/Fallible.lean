import Mathlib.Tactic.Common

/-!
# Computations that may fail

The steps of a computation that has returned.
-/

namespace Fallible

variable {ε α β : Type} {x : Except ε α} {f : α → Except ε β} {b : β}

/-- A computation that returned has returned at its first step. -/
theorem bind_ok (h : (x >>= f) = .ok b) : ∃ a, x = .ok a ∧ f a = .ok b := by
  cases x with
  | error e => cases h
  | ok a => exact ⟨a, rfl, h⟩

theorem ok_bind {a : α} (h : x = .ok a) : (x >>= f) = f a := by
  rw [h]
  rfl

theorem error_bind {e : ε} (h : x = .error e) : (x >>= f) = .error e := by
  rw [h]
  rfl

end Fallible
