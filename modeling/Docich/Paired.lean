/-!
# Two programs side by side

- `Both`: two results that fail with one error, or succeed with related values;
- `both_bind`: related computations in sequence are related;
- `Along`: what holds at every step of a run, and `along_of_inv`, which carries it from an invariant.
-/

namespace Paired

variable {ε α β γ δ σ ι : Type}

/-! ## Results -/

/-- Both fail with the same error, or both succeed with related values. -/
def Both (R : α → β → Prop) : Except ε α → Except ε β → Prop
  | .ok a, .ok b => R a b
  | .error e, .error e' => e = e'
  | _, _ => False

variable {S : γ → δ → Prop} {f : α → Except ε γ} {g : α → Except ε δ} {step : σ → ι → σ} {s : σ}
    {is : List ι}

theorem both_bind {R : α → β → Prop} {x : Except ε α} {y : Except ε β}
    {g : β → Except ε δ} (h : Both R x y) (hf : ∀ a b, R a b → Both S (f a) (g b)) : Both S (x >>= f) (y >>= g) := by
  cases x with
  | ok a =>
    cases y with
    | ok b => exact hf a b h
    | error e => cases h
  | error e =>
    cases y with
    | ok b => cases h
    | error e' =>
      cases h
      exact rfl

/-- The same computation first. -/
theorem both_bind_self (x : Except ε α)
    (hf : ∀ a, x = .ok a → Both S (f a) (g a)) : Both S (x >>= f) (x >>= g) := by
  cases x with
  | ok a => exact hf a rfl
  | error e => exact rfl

/-- Equal computations first. -/
theorem both_bind_eq {x y : Except ε α} (h : x = y)
    (hf : ∀ a, x = .ok a → Both S (f a) (g a)) : Both S (x >>= f) (y >>= g) := by
  subst h
  exact both_bind_self x hf

/-! ## Runs -/

/-- `P` holds of every state of a run and the call that is made there. -/
def Along (step : σ → ι → σ) (P : σ → ι → Prop) : σ → List ι → Prop
  | _, [] => True
  | s, i :: is => P s i ∧ Along step P (step s i) is

instance decidableAlong {step : σ → ι → σ} {P : σ → ι → Prop} [∀ s i, Decidable (P s i)] :
    ∀ s is, Decidable (Along step P s is)
  | _, [] => isTrue trivial
  | s, i :: is => @instDecidableAnd _ _ inferInstance (decidableAlong (step s i) is)

theorem along_of_inv (Inv : σ → Prop) {C P : σ → ι → Prop}
    (hstep : ∀ s i, Inv s → C s i → P s i ∧ Inv (step s i)) (hs : Inv s) (h : Along step C s is) :
    Along step P s is := by
  induction is generalizing s with
  | nil => exact trivial
  | cons i is ih =>
    obtain ⟨hi, hrest⟩ := h
    obtain ⟨hp, hinv⟩ := hstep s i hs hi
    exact ⟨hp, ih hinv hrest⟩

/-- An invariant of the steps holds at the end of a run. -/
theorem foldl_of_along (Inv : σ → Prop) {C : σ → ι → Prop} (hstep : ∀ s i, Inv s → C s i → Inv (step s i))
    (hs : Inv s) (h : Along step C s is) : Inv (is.foldl step s) := by
  induction is generalizing s with
  | nil => exact hs
  | cons i is ih => exact ih (hstep s i hs h.1) h.2

end Paired
