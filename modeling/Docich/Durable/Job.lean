import Mathlib.Data.List.Basic

/-!
# Jobs of transactions

A job reads a durable state and commits transactions one after another. It is modelled by the states it commits, in
their order, and its result: what a process that dies in the middle leaves behind is the last of a prefix of them.

* `read` looks at the state, `txn` commits the state its body computes; a body that raises commits nothing.
* `Holds I s m Q`: every state that `m` commits from `s` satisfies `I`, and a result satisfies `Q` in the last state.
  The rules `holds_*` follow the constructors.
* `Ends s m Q F`: a result satisfies `Q` in the last state, an error `F`. This is what a caller that catches the error
  has to know; nothing is said about a process that dies on the way. The rules are `ends_*`.
* `Spec I s m Q F`: both at once (`spec_*`).
-/

namespace Durable

open List

variable {σ ε α β : Type}

/-- The committed states in their order, and the result. -/
def Job (σ ε α : Type) : Type := σ → List σ × Except ε α

namespace Job

def pure (a : α) : Job σ ε α := fun _ => ([], .ok a)

def bind (m : Job σ ε α) (f : α → Job σ ε β) : Job σ ε β := fun s =>
  match m s with
  | (ss, .error e) => (ss, .error e)
  | (ss, .ok a) => (ss ++ (f a (ss.getLastD s)).1, (f a (ss.getLastD s)).2)

instance : Monad (Job σ ε) where
  pure := pure
  bind := bind

def throw (e : ε) : Job σ ε α := fun _ => ([], .error e)

def read (g : σ → α) : Job σ ε α := fun s => ([], .ok (g s))

/-- A read that can fail. -/
def look (g : σ → Except ε α) : Job σ ε α := fun s => ([], g s)

/-- A value computed without the store, or the error of the computation. -/
def ofExcept (x : Except ε α) : Job σ ε α := fun _ => ([], x)

/-- One transaction: the state its body computes is committed, or nothing is. -/
def txn (body : σ → Except ε (σ × α)) : Job σ ε α := fun s =>
  match body s with
  | .ok (s', a) => ([s'], .ok a)
  | .error e => ([], .error e)

/-- The job with its error as a value. -/
def attempt (m : Job σ ε α) : Job σ ε (Except ε α) := fun s => ((m s).1, .ok (m s).2)

/-- The state after a job that ran to its end. -/
def last (m : Job σ ε α) (s : σ) : σ := (m s).1.getLastD s

/-! ## Reachable states -/

/-- The states a process can leave behind that starts the job in `s` and may die after any transaction. -/
def Leaves (m : Job σ ε α) (s t : σ) : Prop := t = s ∨ t ∈ (m s).1

theorem leaves_last (m : Job σ ε α) (s : σ) : m.Leaves s (m.last s) := by
  unfold Leaves last
  cases hm : (m s).1 with
  | nil => exact .inl rfl
  | cons t ts =>
    right
    rw [getLastD_cons]
    exact getLastD_mem_cons

/-! ## Specifications -/

structure Holds (I : σ → Prop) (s : σ) (m : Job σ ε α) (Q : α → σ → Prop) : Prop where
  states : ∀ t ∈ (m s).1, I t
  result : ∀ a, (m s).2 = .ok a → Q a (m.last s)

variable {I : σ → Prop} {s : σ} {Q : α → σ → Prop} {R : β → σ → Prop}
variable {a : α} {e : ε} {g : σ → α} {x : Except ε α} {Q' : α → σ → Prop}

theorem holds_pure (h : Q a s) : Holds I s (Pure.pure a : Job σ ε α) Q := by
  constructor
  · intro t ht
    cases ht
  · intro b hb
    cases hb
    exact h

theorem holds_throw : Holds I s (throw e : Job σ ε α) Q := by
  constructor
  · intro t ht
    cases ht
  · intro b hb
    cases hb

variable {f : α → Job σ ε β} {m : Job σ ε α} {body : σ → Except ε (σ × α)}

/-- A job that raises ends the sequence. -/
theorem bind_of_error (h : (m s).2 = .error e) : (m >>= f) s = ((m s).1, .error e) := by
  have hm : (m >>= f) s = bind m f s := rfl
  rw [hm, bind]
  cases hr : m s with
  | mk ss r =>
    rw [hr] at h
    cases h
    rfl

theorem bind_of_ok (h : (m s).2 = .ok a) :
    (m >>= f) s = ((m s).1 ++ (f a (m.last s)).1, (f a (m.last s)).2) := by
  have hm : (m >>= f) s = bind m f s := rfl
  rw [hm, bind, last]
  cases hr : m s with
  | mk ss r =>
    rw [hr] at h
    cases h
    rfl

theorem ofExcept_bind (x : Except ε α) (f : α → Job σ ε β) (s : σ) : (ofExcept x >>= f) s =
    match x with
    | .ok a => f a s
    | .error e => ([], .error e) := by
  cases x <;> rfl

theorem last_bind_of_error (h : (m s).2 = .error e) : (m >>= f).last s = m.last s := by
  rw [last, bind_of_error h, last]

theorem last_bind_of_ok (h : (m s).2 = .ok a) : (m >>= f).last s = (f a).last (m.last s) := by
  unfold last
  rw [bind_of_ok h]
  simp only [getLastD_eq_getLast?, List.getLast?_append, last]
  cases (f a ((m s).1.getLast?.getD s)).1.getLast? with
  | none => rfl
  | some t => rfl

theorem holds_bind (h : Holds I s m Q) (hf : ∀ a t, Q a t → Holds I t (f a) R) : Holds I s (m >>= f) R := by
  cases hr : (m s).2 with
  | error e =>
    constructor
    · rw [bind_of_error hr]
      exact h.states
    · intro b hb
      rw [bind_of_error hr] at hb
      cases hb
  | ok a =>
    have hfa := hf a _ (h.result a hr)
    constructor
    · rw [bind_of_ok hr]
      intro t ht
      rcases mem_append.mp ht with ht | ht
      · exact h.states t ht
      · exact hfa.states t ht
    · intro b hb
      rw [bind_of_ok hr] at hb
      rw [last_bind_of_ok hr]
      exact hfa.result b hb

theorem holds_read (h : Holds I s (f (g s)) R) : Holds I s (read g >>= f) R :=
  holds_bind (Q := fun a t => a = g s ∧ t = s) ⟨(fun t ht => nomatch ht), fun a ha => by cases ha; exact ⟨rfl, rfl⟩⟩
    (by rintro a t ⟨rfl, rfl⟩; exact h)

theorem holds_look {g : σ → Except ε α} (h : ∀ a, g s = .ok a → Holds I s (f a) R) : Holds I s (look g >>= f) R :=
  holds_bind (Q := fun a t => g s = .ok a ∧ t = s) ⟨(fun t ht => nomatch ht), fun a ha => ⟨ha, rfl⟩⟩
    (by rintro a t ⟨ha, rfl⟩; exact h a ha)

theorem holds_ofExcept (h : ∀ a, x = .ok a → Holds I s (f a) R) : Holds I s (ofExcept x >>= f) R :=
  holds_bind (Q := fun a t => x = .ok a ∧ t = s) ⟨(fun t ht => nomatch ht), fun a ha => ⟨ha, rfl⟩⟩
    (by rintro a t ⟨ha, rfl⟩; exact h a ha)

/-- A transaction: the invariant holds of what it commits. -/
theorem holds_txn (h : ∀ t a, body s = .ok (t, a) → I t ∧ Q a t) : Holds I s (txn body) Q := by
  cases hb : body s with
  | error e =>
    have ht : txn body s = ([], .error e) := by rw [txn, hb]
    constructor
    · rw [ht]
      intro t ht'
      cases ht'
    · intro a ha
      rw [ht] at ha
      cases ha
  | ok r =>
    obtain ⟨t, a⟩ := r
    have ht : txn body s = ([t], .ok a) := by rw [txn, hb]
    obtain ⟨hI, hQ⟩ := h t a hb
    constructor
    · rw [ht]
      intro u hu
      rw [mem_singleton.mp hu]
      exact hI
    · intro b hb'
      rw [ht] at hb'
      cases hb'
      rw [last, ht]
      exact hQ

theorem holds_txn_bind (h : ∀ t a, body s = .ok (t, a) → I t ∧ Holds I t (f a) R) : Holds I s (txn body >>= f) R :=
  holds_bind (holds_txn (Q := fun a t => Holds I t (f a) R) h) (fun _ _ hf => hf)

/-- A caught transaction: the state stays where the body raises. -/
theorem holds_attempt_txn {f : Except ε α → Job σ ε β}
    (hok : ∀ t a, body s = .ok (t, a) → I t ∧ Holds I t (f (.ok a)) R)
    (herr : ∀ e, body s = .error e → Holds I s (f (.error e)) R) : Holds I s (attempt (txn body) >>= f) R := by
  apply holds_bind (Q := fun r t => Holds I t (f r) R)
  · cases hb : body s with
    | error e =>
      have ht : txn body s = ([], .error e) := by rw [txn, hb]
      constructor
      · intro t ht'
        rw [attempt, ht] at ht'
        cases ht'
      · intro r hr
        rw [last]
        rw [attempt, ht] at hr ⊢
        cases hr
        exact herr e hb
    | ok r =>
      obtain ⟨t, a⟩ := r
      have ht : txn body s = ([t], .ok a) := by rw [txn, hb]
      obtain ⟨hI, hf⟩ := hok t a hb
      constructor
      · intro u hu
        rw [attempt, ht] at hu
        rw [mem_singleton.mp hu]
        exact hI
      · intro r hr
        rw [last]
        rw [attempt, ht] at hr ⊢
        cases hr
        exact hf
  · exact fun _ _ hf => hf

theorem Holds.imp {J : σ → Prop} (h : Holds I s m Q) (hJ : ∀ t, I t → J t) : Holds J s m Q :=
  ⟨fun t ht => hJ t (h.states t ht), h.result⟩

/-- A caught job ends in a state that keeps the invariant. -/
theorem holds_attempt (h : Holds I s m Q) (hs : I s) : Holds I s (attempt m) fun _ t => I t := by
  refine ⟨h.states, fun r _ => ?_⟩
  rcases leaves_last m s with hl | hl
  · exact (congrArg I hl).mpr hs
  · exact h.states _ hl

/-- The states a process leaves behind keep the invariant. -/
theorem Holds.leaves {t : σ} (h : Holds I s m Q) (hs : I s) (ht : m.Leaves s t) : I t := by
  rcases ht with rfl | ht
  · exact hs
  · exact h.states t ht

/-! ## What a caller can rely on -/

/-- What holds where the job ends: of its result, or of its error. -/
structure Ends (s : σ) (m : Job σ ε α) (Q : α → σ → Prop) (F : ε → σ → Prop) : Prop where
  result : ∀ a, (m s).2 = .ok a → Q a (m.last s)
  error : ∀ e, (m s).2 = .error e → F e (m.last s)

variable {P : σ → Prop} {F G : ε → σ → Prop}

theorem Ends.mono (h : Ends s m Q F) (hQ : ∀ a t, Q a t → Q' a t)
    (hF : ∀ e t, F e t → G e t) : Ends s m Q' G :=
  ⟨fun a ha => hQ a _ (h.result a ha), fun e he => hF e _ (h.error e he)⟩

theorem Ends.and (h : Ends s m Q F) (h' : Ends s m Q' G) :
    Ends s m (fun a t => Q a t ∧ Q' a t) fun e t => F e t ∧ G e t :=
  ⟨fun a ha => ⟨h.result a ha, h'.result a ha⟩, fun e he => ⟨h.error e he, h'.error e he⟩⟩

/-- What holds of a result and of an error holds of the last state. -/
theorem Ends.last (h : Ends s m (fun _ => P) fun _ => P) : P (m.last s) := by
  cases hr : (m s).2 with
  | ok a => exact h.result a hr
  | error e => exact h.error e hr

theorem ends_pure (h : Q a s) : Ends s (Pure.pure a : Job σ ε α) Q F := by
  constructor
  · intro b hb
    cases hb
    exact h
  · intro e he
    cases he

theorem ends_throw (h : F e s) : Ends s (throw e : Job σ ε α) Q F := by
  constructor
  · intro a ha
    cases ha
  · intro e' he
    cases he
    exact h

theorem ends_bind (h : Ends s m Q F) (hf : ∀ a t, Q a t → Ends t (f a) R F) : Ends s (m >>= f) R F := by
  cases hr : (m s).2 with
  | error e =>
    constructor
    · intro b hb
      rw [bind_of_error hr] at hb
      cases hb
    · intro e' he
      rw [bind_of_error hr] at he
      cases he
      rw [last_bind_of_error hr]
      exact h.error e hr
  | ok a =>
    have hfa := hf a _ (h.result a hr)
    constructor
    · intro b hb
      rw [bind_of_ok hr] at hb
      rw [last_bind_of_ok hr]
      exact hfa.result b hb
    · intro e he
      rw [bind_of_ok hr] at he
      rw [last_bind_of_ok hr]
      exact hfa.error e he

theorem ends_read (h : Q (g s) s) : Ends s (read g : Job σ ε α) Q F := by
  constructor
  · intro a ha
    cases ha
    exact h
  · intro e he
    cases he

theorem ends_look {g : σ → Except ε α} (hok : ∀ a, g s = .ok a → Q a s) (herr : ∀ e, g s = .error e → F e s) :
    Ends s (look g) Q F :=
  ⟨hok, herr⟩

theorem ends_ofExcept (hok : ∀ a, x = .ok a → Q a s) (herr : ∀ e, x = .error e → F e s) :
    Ends s (ofExcept x) Q F :=
  ⟨hok, herr⟩

theorem ends_txn (hok : ∀ t a, body s = .ok (t, a) → Q a t)
    (herr : ∀ e, body s = .error e → F e s) : Ends s (txn body) Q F := by
  cases hb : body s with
  | error e =>
    have ht : txn body s = ([], .error e) := by rw [txn, hb]
    constructor
    · intro a ha
      rw [ht] at ha
      cases ha
    · intro e' he
      rw [ht] at he
      cases he
      rw [last, ht]
      exact herr e hb
  | ok r =>
    obtain ⟨t, a⟩ := r
    have ht : txn body s = ([t], .ok a) := by rw [txn, hb]
    constructor
    · intro b hb'
      rw [ht] at hb'
      cases hb'
      rw [last, ht]
      exact hok t a hb
    · intro e he
      rw [ht] at he
      cases he

/-- A caught job ends where it ended, with its error as a value. -/
theorem ends_attempt (h : Ends s m Q F) :
    Ends s (attempt m) (fun r t => (∀ a, r = .ok a → Q a t) ∧ ∀ e, r = .error e → F e t) G := by
  have hlast : (attempt m).last s = m.last s := rfl
  constructor
  · intro r hr
    cases hr
    exact ⟨h.result, h.error⟩
  · intro e he
    cases he

/-! ## Both at once -/

/-- The states that a job commits, and what holds where it ends. -/
structure Spec (I : σ → Prop) (s : σ) (m : Job σ ε α) (Q : α → σ → Prop) (F : ε → σ → Prop) : Prop
    extends Ends s m Q F where
  states : ∀ t ∈ (m s).1, I t

theorem Spec.holds (h : Spec I s m Q F) : Holds I s m Q := ⟨h.states, h.result⟩

theorem Spec.mono (h : Spec I s m Q F) (hQ : ∀ a t, Q a t → Q' a t) (hF : ∀ e t, F e t → G e t) :
    Spec I s m Q' G :=
  ⟨h.toEnds.mono hQ hF, h.states⟩

theorem spec_pure (h : Q a s) : Spec I s (Pure.pure a : Job σ ε α) Q F :=
  ⟨ends_pure h, (holds_pure h).states⟩

theorem spec_throw (h : F e s) : Spec I s (throw e : Job σ ε α) Q F :=
  ⟨ends_throw h, (holds_throw (Q := Q)).states⟩

theorem spec_bind (h : Spec I s m Q F) (hf : ∀ a t, Q a t → Spec I t (f a) R F) : Spec I s (m >>= f) R F :=
  ⟨ends_bind h.toEnds fun a t ha => (hf a t ha).toEnds, (holds_bind h.holds fun a t ha => (hf a t ha).holds).states⟩

theorem spec_look {g : σ → Except ε α} (hok : ∀ a, g s = .ok a → Q a s) (herr : ∀ e, g s = .error e → F e s) :
    Spec I s (look g) Q F :=
  ⟨ends_look hok herr, fun _ ht => nomatch ht⟩

theorem spec_ofExcept (hok : ∀ a, x = .ok a → Q a s) (herr : ∀ e, x = .error e → F e s) :
    Spec I s (ofExcept x) Q F :=
  spec_look hok herr

theorem spec_txn (hok : ∀ t a, body s = .ok (t, a) → I t ∧ Q a t) (herr : ∀ e, body s = .error e → F e s) :
    Spec I s (txn body) Q F :=
  ⟨ends_txn (fun t a hb => (hok t a hb).2) herr, (holds_txn hok).states⟩

theorem spec_attempt (h : Spec I s m (fun _ => P) fun _ => P) : Spec I s (attempt m) (fun _ => P) F := by
  refine ⟨(ends_attempt h.toEnds).mono (fun r t hr => ?_) fun _ _ he => he, h.states⟩
  cases r with
  | ok a => exact hr.1 a rfl
  | error e => exact hr.2 e rfl

end Job

end Durable
