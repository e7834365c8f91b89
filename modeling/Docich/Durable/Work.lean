import Docich.Durable.Locks

/-!
# Programs with a memory

- `Work`: a program of a process that works on a memory of its own; an exception keeps the memory as it was at the
  raise, so a handler sees what was written before;
- `Work.locking`: run a body under a lock, and give the lock back however the body ends;
- `Triple P m Q X`: from memory and data in `P`, with the locks `h`, the work `m` keeps the contract, gives back what it
  took, and ends in `Q` or raises in `X`. The rules `triple_*` follow the constructors;
- `Work.answered`: how a work ends when its calls have given answers.
-/

namespace Durable.Locks

open Function

/-- From a memory, a program that ends with a memory and a value, or raises with a memory and an exception. -/
def Work (L Q : Type) (A : Q → Type) (σ ε α : Type) : Type := σ → LockProgram L Q A (σ × ε) (σ × α)

namespace Work

variable {L Q D σ ε α β : Type} {A : Q → Type}

def pure (a : α) : Work L Q A σ ε α := fun s => .ret (s, a)

def bind (m : Work L Q A σ ε α) (f : α → Work L Q A σ ε β) : Work L Q A σ ε β := fun s => m s >>= fun r => f r.2 r.1

instance : Monad (Work L Q A σ ε) where
  pure := pure
  bind := bind

def throw (e : ε) : Work L Q A σ ε α := fun s => .raise (s, e)

def get : Work L Q A σ ε σ := fun s => .ret (s, s)

def modify (f : σ → σ) : Work L Q A σ ε Unit := fun s => .ret (f s, ())

def ask (q : Q) : Work L Q A σ ε (A q) := fun s => .ask (.call q) fun x => .ret (s, x)

/-- Go on with a value, or raise. -/
def ofExcept : Except ε α → Work L Q A σ ε α
  | .ok a => pure a
  | .error e => throw e

/-- Run a body, and a handler with the memory at the raise. -/
def handle (m : Work L Q A σ ε α) (f : ε → Work L Q A σ ε α) : Work L Q A σ ε α := fun s =>
  (m s).attempt >>= fun
    | .ok r => .ret r
    | .error r => f r.2 r.1

/-- Run a body under a lock, or something else when the lock is refused. -/
def locking (l : L) (body refused : Work L Q A σ ε α) : Work L Q A σ ε α := fun s =>
  .ask (.acquire l) fun
    | true => (body s).attempt >>= fun r => .ask (.release l) fun _ => .ofExcept r
    | false => refused s

/-- Go through the elements in order, with a value that every round may replace. -/
def fold (f : α → β → Work L Q A σ ε α) (a : α) : List β → Work L Q A σ ε α
  | [] => pure a
  | b :: bs => bind (f a b) fun a => fold f a bs

end Work

/-! ## Answered runs -/

section Answered

variable {L Q σ ε α β : Type} {A : Q → Type}

namespace LockProgram

/-- How a program ends when no lock is refused and every call has the given answer. -/
def answered {E : Type} (f : (q : Q) → A q) : LockProgram L Q A E α → Except E α
  | .ret a => .ok a
  | .raise e => .error e
  | .ask (.acquire _) k => answered f (k true)
  | .ask (.release _) k => answered f (k ())
  | .ask (.call q) k => answered f (k (f q))

theorem answered_bind {E : Type} (f : (q : Q) → A q) (x : LockProgram L Q A E α)
    (g : α → LockProgram L Q A E β) : answered f (x >>= g) = (answered f x).bind fun a => answered f (g a) := by
  induction x with
  | ret a => rfl
  | raise e => rfl
  | ask q k ih =>
    cases q with
    | acquire l => exact ih true
    | release l => exact ih ()
    | call q => exact ih (f q)

end LockProgram

namespace Work

/-- How a work ends from a memory when no lock is refused and every call has the given answer. -/
def answered (f : (q : Q) → A q) (m : Work L Q A σ ε α) (s : σ) : Except (σ × ε) (σ × α) :=
  LockProgram.answered f (m s)

variable (f : (q : Q) → A q) (s : σ)

theorem answered_bind (m : Work L Q A σ ε α) (g : α → Work L Q A σ ε β) :
    answered f (m >>= g) s = (answered f m s).bind fun r => answered f (g r.2) r.1 :=
  LockProgram.answered_bind f (m s) fun r => g r.2 r.1

@[simp] theorem answered_get : answered f (get : Work L Q A σ ε σ) s = .ok (s, s) := rfl

end Work

end Answered

/-! ## Triples -/

variable {L Q D σ ε α β : Type} {A : Q → Type} [DecidableEq L] {W : World L Q A D} {G : Contract L D}

/-- How a work may end: with the locks it started with, in `R`, or by an exception in `X`. -/
def Ends (G : Contract L D) (h : Held L) (R : α → σ → D → Prop) (X : ε → σ → D → Prop) :
    Except (σ × ε) (σ × α) → Held L → D → Prop
  | .ok r, h', d => h' = h ∧ G.known d ∧ R r.2 r.1 d
  | .error r, h', d => h' = h ∧ G.known d ∧ X r.2 r.1 d

/-- What a work does from memory and data in `P`. -/
def Triple (W : World L Q A D) (G : Contract L D) (h : Held L) (P : σ → D → Prop) (m : Work L Q A σ ε α)
    (R : α → σ → D → Prop) (X : ε → σ → D → Prop) : Prop :=
  ∀ s d, G.known d → P s d → Ensures W G (m s) h d (Ends G h R X)

variable {h : Held L} {P P' : σ → D → Prop} {R R' : α → σ → D → Prop} {T : β → σ → D → Prop} {X X' : ε → σ → D → Prop}
  {m : Work L Q A σ ε α} {f : α → Work L Q A σ ε β}

theorem Triple.mono (hm : Triple W G h P m R X) (hP : ∀ s d, P' s d → P s d) (hR : ∀ a s d, R a s d → R' a s d)
    (hX : ∀ e s d, X e s d → X' e s d) : Triple W G h P' m R' X' := by
  intro s d hk hp
  refine (hm s d hk (hP s d hp)).mono fun r h' d' hr => ?_
  cases r with
  | ok r => exact ⟨hr.1, hr.2.1, hR _ _ _ hr.2.2⟩
  | error r => exact ⟨hr.1, hr.2.1, hX _ _ _ hr.2.2⟩

/-- A stronger start. -/
theorem Triple.pre (hm : Triple W G h P m R X) (hP : ∀ s d, P' s d → P s d) : Triple W G h P' m R X :=
  hm.mono hP (fun _ _ _ hr => hr) fun _ _ _ hx => hx

/-- A weaker end. -/
theorem Triple.post (hm : Triple W G h P m R X) (hR : ∀ a s d, R a s d → R' a s d)
    (hX : ∀ e s d, X e s d → X' e s d) : Triple W G h P m R' X' :=
  hm.mono (fun _ _ hp => hp) hR hX

/-- A weaker exception. -/
theorem Triple.raising (hm : Triple W G h P m R X) (hX : ∀ e s d, X e s d → X' e s d) : Triple W G h P m R X' :=
  hm.post (fun _ _ _ hr => hr) hX

/-- What holds at all times may be used. -/
theorem Triple.knowing (hm : Triple W G h (fun s d => G.known d ∧ P s d) m R X) : Triple W G h P m R X :=
  fun s d hk hp => hm s d hk ⟨hk, hp⟩

theorem triple_pure {a : α} (ha : ∀ s d, P s d → R a s d) : Triple W G h P (Pure.pure a) R X :=
  fun s d hk hp => ⟨rfl, hk, ha s d hp⟩

theorem triple_ret {a : α} : Triple W G h P (Pure.pure a) (fun _ => P) X := triple_pure fun _ _ hp => hp

theorem triple_throw {e : ε} (he : ∀ s d, P s d → X e s d) : Triple W G h P (Work.throw e) R X :=
  fun s d hk hp => ⟨rfl, hk, he s d hp⟩

theorem triple_bind (hm : Triple W G h P m R X) (hf : ∀ a, Triple W G h (R a) (f a) T X) :
    Triple W G h P (m >>= f) T X := by
  intro s d hk hp
  refine ensures_bind.mpr ((hm s d hk hp).mono fun r h' d' hr => ?_)
  cases r with
  | ok r =>
    obtain ⟨rfl, hk', hr⟩ := hr
    exact hf r.2 r.1 d' hk' hr
  | error r => exact hr

theorem triple_ite {c : Prop} [Decidable c] {m₁ m₂ : Work L Q A σ ε α} (h₁ : c → Triple W G h P m₁ R X)
    (h₂ : ¬ c → Triple W G h P m₂ R X) : Triple W G h P (if c then m₁ else m₂) R X := by
  split
  · next hc => exact h₁ hc
  · next hc => exact h₂ hc

/-- A failure of which nothing is asked. -/
theorem triple_fail {e : ε} : Triple W G h P (Work.throw e) R fun _ _ _ => True := triple_throw fun _ _ _ => trivial

theorem triple_guard {c : Prop} [Decidable c] {e : ε} {m : Work L Q A σ ε α}
    (hm : ¬ c → Triple W G h P m R fun _ _ _ => True) : Triple W G h P (if c then Work.throw e else m) R fun _ _ _ => True :=
  triple_ite (fun _ => triple_fail) hm

/-- Reading the memory: what follows knows it. -/
theorem triple_get {f : σ → Work L Q A σ ε β} (hf : ∀ v, Triple W G h (fun s d => s = v ∧ P s d) (f v) T X) :
    Triple W G h P (Work.get >>= f) T X :=
  fun s d hk hp => hf s s d hk ⟨rfl, hp⟩

theorem triple_modify {g : σ → σ} {R : Unit → σ → D → Prop} (hg : ∀ s d, G.known d → P s d → R () (g s) d) :
    Triple W G h P (Work.modify g) R X :=
  fun s d hk hp => ⟨rfl, hk, hg s d hk hp⟩

/-- A call: the start has to be stable, since others may move the data before the call. -/
theorem triple_ask {q : Q} {R : A q → σ → D → Prop} (hP : ∀ s, G.Stable h (P s))
    (hq : ∀ s d x d', G.known d → P s d → W.perform q d x d' → G.step h d d' ∧ R x s d') :
    Triple W G h P (Work.ask q) R X := by
  intro s d hk hp d₁ hd hk₁ x d' hx
  have hs := hq s d₁ x d' hk₁ ((hP s).others hd hk hp) hx
  exact ⟨hs.1, rfl, G.kept _ _ _ hk₁ hs.1, hs.2⟩

theorem triple_ofExcept {x : Except ε α} (ho : ∀ a, x = .ok a → ∀ s d, P s d → R a s d)
    (he : ∀ e, x = .error e → ∀ s d, P s d → X e s d) : Triple W G h P (Work.ofExcept x) R X := by
  cases x with
  | ok a => exact triple_pure (ho a rfl)
  | error e => exact triple_throw (he e rfl)

theorem triple_handle {g : ε → Work L Q A σ ε α} (hm : Triple W G h P m R X')
    (hg : ∀ e, Triple W G h (X' e) (g e) R X) : Triple W G h P (m.handle g) R X := by
  intro s d hk hp
  refine ensures_bind.mpr (ensures_attempt.mpr ((hm s d hk hp).mono fun r h' d' hr => ?_))
  cases r with
  | ok r => exact hr
  | error r =>
    obtain ⟨rfl, hk', hx⟩ := hr
    exact hg r.2 r.1 d' hk' hx

/-- A body under a lock. -/
theorem triple_locking {l : L} {body refused : Work L Q A σ ε α} (hl : h l = false) (hP : ∀ s, G.Stable h (P s))
    (hr : W.tried l = true → Triple W G h P refused R X)
    (hb : Triple W G (update h l true) P body R X) : Triple W G h P (Work.locking l body refused) R X := by
  intro s d hk hp
  refine ⟨hl, fun ht => hr ht s d hk hp, fun d₁ hd hk₁ => ?_⟩
  refine ensures_bind.mpr (ensures_attempt.mpr ((hb s d₁ hk₁ ((hP s).others hd hk hp)).mono fun r h' d' hr => ?_))
  have hback : update (update h l true) l false = h := by
    rw [update_idem, ← hl, update_eq_self]
  cases r with
  | ok r => exact ⟨hr.1 ▸ hback, hr.2⟩
  | error r => exact ⟨hr.1 ▸ hback, hr.2⟩

/-- A loop keeps what each round keeps. -/
theorem triple_fold {f : α → β → Work L Q A σ ε α} {a : α} {bs : List β}
    (hf : ∀ a b, Triple W G h (R a) (f a b) R X) : Triple W G h (R a) (Work.fold f a bs) R X := by
  induction bs generalizing a with
  | nil => exact triple_pure fun _ _ hp => hp
  | cons b bs ih => exact triple_bind (hf a b) fun a => ih

/-- A fact that needs neither memory nor data may be used outside. -/
theorem triple_fact {p : Prop} (hm : p → Triple W G h P m R X) : Triple W G h (fun s d => p ∧ P s d) m R X :=
  fun s d hk hp => hm hp.1 s d hk hp.2

end Durable.Locks
