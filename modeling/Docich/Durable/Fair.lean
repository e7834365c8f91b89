import Mathlib.Order.Basic
import Mathlib.Data.Nat.Find

/-!
# Endless runs

- `Endless step σ e`: the states `σ` come from each other by the events `e`;
- `Endless.invariant`: what every step keeps holds from its first moment on;
- `exists_moment`: what stays until a helpful event comes, and will not wait for it forever, meets that event.

Conditions are on moments of the run, so that a condition may also say that the moment is a late one.
-/

namespace Durable

variable {S E : Type} {step : S → E → Option S} {σ : Nat → S} {e : Nat → E}

/-- An endless run of a step function. -/
def Endless (step : S → E → Option S) (σ : Nat → S) (e : Nat → E) : Prop :=
  ∀ n, step (σ n) (e n) = some (σ (n + 1))

/-- What every step from the moment `n` on keeps holds at every later moment. -/
theorem holds_from {P : Nat → Prop} {n : Nat} (h : P n) (hstep : ∀ m, n ≤ m → P m → P (m + 1)) :
    ∀ m, n ≤ m → P m := by
  intro m hm
  induction m, hm using Nat.le_induction with
  | base => exact h
  | succ m hm ih => exact hstep m hm ih

/-- An invariant of the steps is one of the run. -/
theorem Endless.invariant {I : S → Prop} {C : S → E → Prop} (hrun : Endless step σ e) (hcond : ∀ n, C (σ n) (e n))
    (hstep : ∀ s a s', I s → C s a → step s a = some s' → I s') (h : I (σ 0)) (n : Nat) : I (σ n) :=
  holds_from (P := fun n => I (σ n)) h (fun m _ hm => hstep _ _ _ hm (hcond m) (hrun m)) n (Nat.zero_le n)

/-- **The rule of fairness.** A condition that only a helpful event ends, and that does not last forever without one,
meets a helpful event. -/
theorem exists_moment {P helps : Nat → Prop} {n : Nat} (h : P n) (hfair : ∃ m, n ≤ m ∧ helps m)
    (hstay : ∀ m, n ≤ m → P m → ¬ helps m → P (m + 1)) : ∃ m, n ≤ m ∧ P m ∧ helps m := by
  classical
  have hex : ∃ k, helps (n + k) := by
    obtain ⟨m, hm, hh⟩ := hfair
    exact ⟨m - n, by rwa [Nat.add_sub_cancel' hm]⟩
  have hbefore : ∀ k, k ≤ Nat.find hex → P (n + k) := by
    intro k
    induction k with
    | zero => exact fun _ => h
    | succ k ih =>
      intro hk
      exact hstay (n + k) (Nat.le_add_right n k) (ih (Nat.le_of_succ_le hk)) (Nat.find_min hex hk)
  exact ⟨n + Nat.find hex, Nat.le_add_right _ _, hbefore _ (Nat.le_refl _), Nat.find_spec hex⟩

end Durable
