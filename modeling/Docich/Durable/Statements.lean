import Mathlib.Logic.Basic

/-!
# Statements of one transaction

Statements write to the working copy of a store, one after another, and what they wrote before one of them raises
stays in the working copy. `transaction` runs them between a begin and a commit: when they raise, the store is as it
was found (`transaction_error`), and otherwise it is the working copy (`transaction_ok`).
-/

namespace Durable

variable {σ ε α β : Type}

/-- The working copy that statements leave, and their result. -/
def Statements (σ ε α : Type) : Type := σ → σ × Except ε α

namespace Statements

def pure (a : α) : Statements σ ε α := fun s => (s, .ok a)

def bind (m : Statements σ ε α) (f : α → Statements σ ε β) : Statements σ ε β := fun s =>
  match m s with
  | (t, .error e) => (t, .error e)
  | (t, .ok a) => f a t

instance : Monad (Statements σ ε) where
  pure := pure
  bind := bind

def read (g : σ → α) : Statements σ ε α := fun s => (s, .ok (g s))

/-- A value computed without the store, or the error of the computation. -/
def ofExcept (x : Except ε α) : Statements σ ε α := fun s => (s, x)

def throw (e : ε) : Statements σ ε α := ofExcept (.error e)

/-- A statement that cannot fail. -/
def write (f : σ → σ) : Statements σ ε Unit := fun s => (f s, .ok ())

/-- A statement that a constraint can turn down; then it writes nothing. -/
def tryWrite (f : σ → Option σ) (e : ε) : Statements σ ε Unit := fun s =>
  match f s with
  | some t => (t, .ok ())
  | none => (s, .error e)

/-- Begin and commit, or roll back. -/
def transaction (m : Statements σ ε α) (s : σ) : σ × Except ε α :=
  match m s with
  | (t, .ok a) => (t, .ok a)
  | (_, .error e) => (s, .error e)

/-! ## Rules -/

variable {s t : σ} {m : Statements σ ε α} {f : α → Statements σ ε β}

/-- Statements that do not raise ran one after another. -/
theorem bind_ok {b : β} (h : (m >>= f) s = (t, .ok b)) : ∃ a u, m s = (u, .ok a) ∧ f a u = (t, .ok b) := by
  have hb : (m >>= f) s = bind m f s := rfl
  rw [hb, bind] at h
  cases hm : m s with
  | mk u r =>
    rw [hm] at h
    cases r with
    | error e => cases h
    | ok a => exact ⟨a, u, rfl, h⟩

theorem pure_ok {a b : α} (h : (Pure.pure a : Statements σ ε α) s = (t, .ok b)) : s = t ∧ a = b := by
  cases h
  exact ⟨rfl, rfl⟩

theorem ofExcept_ok {x : Except ε α} {a : α} (h : ofExcept x s = (t, .ok a)) : s = t ∧ x = .ok a := by
  cases h
  exact ⟨rfl, rfl⟩

theorem throw_ok {e : ε} {a : α} : ¬ (throw e : Statements σ ε α) s = (t, .ok a) := by
  intro h
  cases h

theorem tryWrite_ok {g : σ → Option σ} {e : ε} {u : Unit} (h : tryWrite g e s = (t, .ok u)) : g s = some t := by
  unfold tryWrite at h
  cases hg : g s with
  | none =>
    rw [hg] at h
    cases h
  | some t' =>
    rw [hg] at h
    cases h
    rfl

theorem transaction_ok {a : α} (h : transaction m s = (t, .ok a)) : m s = (t, .ok a) := by
  unfold transaction at h
  cases hm : m s with
  | mk u r =>
    rw [hm] at h
    cases r with
    | error e => cases h
    | ok b => exact h

/-- What raises leaves nothing behind. -/
theorem transaction_error {e : ε} (h : (transaction m s).2 = .error e) : (transaction m s).1 = s := by
  unfold transaction at h ⊢
  cases hm : m s with
  | mk u r =>
    rw [hm] at h
    cases r with
    | error e' => rfl
    | ok b => cases h

end Statements

end Durable
