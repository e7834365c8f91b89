import Docich.Durable.Program

/-!
# One owner at a time

- `Owning.World`: what a call of the owner may answer and do, what others may do to the data at any time, and when an
  owner may start or die;
- `Owning.Ensures`: every way an owner can go on keeps an invariant and meets a condition;
- `Owning.Step`, `Owning.Reach`: an owner at a time, others between any two of its calls;
- `Owning.Reach.sound`: **the invariant holds of all reachable data, and whenever there is no owner the data are
  settled**.

The lock that makes the owner the only one is not among the data: it is free when the owner ends or dies.
-/

namespace Durable.Owning

open Relation (ReflTransGen)

/-- `perform q d x d'`: the call `q` of the owner may answer `x` and turn the data `d` into `d'`. -/
structure World (Q : Type) (A : Q → Type) (K D : Type) where
  perform : (q : Q) → D → A q → D → Prop
  other : D → D → Prop
  mayStart : K → D → Prop
  mayDie : D → Prop

variable {Q : Type} {A : Q → Type} {E K D α β : Type}

section Ensures

variable (W : World Q A K D) (I : D → Prop)

/-- Every run of the program from data `d`, with the others between its calls, keeps `I` and ends in `R`. -/
def Ensures : Program Q A E α → D → (Except E α → D → Prop) → Prop
  | .ret a, d, R => R (.ok a) d
  | .raise e, d, R => R (.error e) d
  | .ask q k, d, R => ∀ d₁, ReflTransGen W.other d d₁ → I d₁ → ∀ x d', W.perform q d₁ x d' → I d' ∧ Ensures (k x) d' R

variable {W I} {x : Program Q A E α} {d : D} {f : α → Program Q A E β} {R : Except E β → D → Prop}

theorem Ensures.mono {R R' : Except E α → D → Prop} (hx : Ensures W I x d R)
    (hR : ∀ r d', R r d' → R' r d') : Ensures W I x d R' := by
  induction x generalizing d with
  | ret a => exact hR _ _ hx
  | raise e => exact hR _ _ hx
  | ask q k ih => exact fun d₁ hd hi y d' hy => ⟨(hx d₁ hd hi y d' hy).1, ih _ (hx d₁ hd hi y d' hy).2⟩

/-- What follows a result: the rest of a program, or nothing after an exception. -/
def Next (W : World Q A K D) (I : D → Prop) (f : α → Program Q A E β) (R : Except E β → D → Prop) : Except E α → D → Prop
  | .ok a, d => Ensures W I (f a) d R
  | .error e, d => R (.error e) d

theorem ensures_bind :
    Ensures W I (x >>= f) d R ↔ Ensures W I x d (Next W I f R) := by
  induction x generalizing d with
  | ret a => exact Iff.rfl
  | raise e => exact Iff.rfl
  | ask q k ih =>
    exact forall_congr' fun d₁ => imp_congr_right fun _ => imp_congr_right fun _ => forall_congr' fun y =>
      forall_congr' fun d' => imp_congr_right fun _ => and_congr Iff.rfl (ih y)

/-- Sequencing, with a condition after the first part. -/
theorem Ensures.bind {R' : Except E α → D → Prop}
    (hx : Ensures W I x d R') (hf : ∀ a d', R' (.ok a) d' → Ensures W I (f a) d' R)
    (he : ∀ e d', R' (.error e) d' → R (.error e) d') : Ensures W I (x >>= f) d R := by
  refine ensures_bind.mpr (hx.mono fun r d' hr => ?_)
  cases r with
  | ok a => exact hf a d' hr
  | error e => exact he e d' hr

/-- Catching: the result is handed over as a value. -/
theorem ensures_attempt {R : Except E (Except E α) → D → Prop} :
    Ensures W I x.attempt d R ↔ Ensures W I x d fun r => R (.ok r) := by
  induction x generalizing d with
  | ret a => exact Iff.rfl
  | raise e => exact Iff.rfl
  | ask q k ih =>
    exact forall_congr' fun d₁ => imp_congr_right fun _ => imp_congr_right fun _ => forall_congr' fun y =>
      forall_congr' fun d' => imp_congr_right fun _ => and_congr Iff.rfl (ih y)

end Ensures

/-! ## Runs -/

/-- The data, and the program of the owner when there is one. -/
structure Sys (Q : Type) (A : Q → Type) (E α D : Type) : Type where
  data : D
  owner : Option (Program Q A E α)

variable {W : World Q A K D} {code : K → Program Q A E α} {I Settled : D → Prop} {s s' : Sys Q A E α D} {d₀ : D}

inductive Step (W : World Q A K D) (code : K → Program Q A E α) : Sys Q A E α D → Sys Q A E α D → Prop
  | start {d : D} (k : K) : W.mayStart k d → Step W code ⟨d, none⟩ ⟨d, some (code k)⟩
  | call {d d' : D} {q : Q} {f : A q → Program Q A E α} {x : A q} : W.perform q d x d' →
      Step W code ⟨d, some (.ask q f)⟩ ⟨d', some (f x)⟩
  | finish {d : D} {a : α} : Step W code ⟨d, some (.ret a)⟩ ⟨d, none⟩
  | fail {d : D} {e : E} : Step W code ⟨d, some (.raise e)⟩ ⟨d, none⟩
  | die {d : D} {x : Program Q A E α} : W.mayDie d → Step W code ⟨d, some x⟩ ⟨d, none⟩
  | other {d d' : D} {o : Option (Program Q A E α)} : W.other d d' → Step W code ⟨d, o⟩ ⟨d', o⟩

abbrev Reach (W : World Q A K D) (code : K → Program Q A E α) : Sys Q A E α D → Sys Q A E α D → Prop :=
  ReflTransGen (Step W code)

/-- What the owner ensures, from some earlier data after which only others moved. -/
structure Sound (W : World Q A K D) (I Settled : D → Prop) (s : Sys Q A E α D) : Prop where
  known : I s.data
  settled : s.owner = none → Settled s.data
  owner : ∀ x, s.owner = some x → ∃ d, I d ∧ ReflTransGen W.other d s.data ∧ Ensures W I x d fun _ d => Settled d

/-- What others do keeps the invariant, and the data settled. -/
structure Disturbed (W : World Q A K D) (I Settled : D → Prop) : Prop where
  known : ∀ d d', I d → W.other d d' → I d'
  settled : ∀ d d', I d → Settled d → W.other d d' → Settled d'

variable {d d' : D} {f : α → Program Q A E β}

theorem Disturbed.many (h : Disturbed W I Settled) (hI : I d) (hs : Settled d) (hd : ReflTransGen W.other d d') :
    I d' ∧ Settled d' := by
  induction hd with
  | refl => exact ⟨hI, hs⟩
  | tail _ hstep ih => exact ⟨h.known _ _ ih.1 hstep, h.settled _ _ ih.1 ih.2 hstep⟩

theorem Sound.next (h : Sound W I Settled s) (hother : Disturbed W I Settled) (hdie : ∀ d, I d → W.mayDie d → Settled d)
    (hcode : ∀ k d, I d → Settled d → W.mayStart k d → Ensures W I (code k) d fun _ d => Settled d)
    (hs : Step W code s s') : Sound W I Settled s' := by
  cases hs with
  | start k hk =>
    refine ⟨h.known, nofun, fun x hx => ?_⟩
    cases hx
    exact ⟨_, h.known, .refl, hcode k _ h.known (h.settled rfl) hk⟩
  | call hx =>
    obtain ⟨d, hd, hsince, hens⟩ := h.owner _ rfl
    obtain ⟨hI, hnext⟩ := hens _ hsince h.known _ _ hx
    refine ⟨hI, nofun, fun y hy => ?_⟩
    cases hy
    exact ⟨_, hI, .refl, hnext⟩
  | finish =>
    obtain ⟨d, hd, hsince, hens⟩ := h.owner _ rfl
    exact ⟨h.known, fun _ => (hother.many hd hens hsince).2, nofun⟩
  | fail =>
    obtain ⟨d, hd, hsince, hens⟩ := h.owner _ rfl
    exact ⟨h.known, fun _ => (hother.many hd hens hsince).2, nofun⟩
  | die hm => exact ⟨h.known, fun _ => hdie _ h.known hm, nofun⟩
  | other ho =>
    refine ⟨hother.known _ _ h.known ho, fun hn => hother.settled _ _ h.known (h.settled hn) ho, fun x hx => ?_⟩
    obtain ⟨d, hd, hsince, hens⟩ := h.owner x hx
    exact ⟨d, hd, hsince.tail ho, hens⟩

/-- **Soundness.** -/
theorem Reach.sound (hI : I d₀) (hsettled : Settled d₀) (hother : Disturbed W I Settled) (hdie : ∀ d, I d → W.mayDie d → Settled d)
    (hcode : ∀ k d, I d → Settled d → W.mayStart k d → Ensures W I (code k) d fun _ d => Settled d)
    (hs : Reach W code ⟨d₀, none⟩ s) : Sound W I Settled s := by
  induction hs with
  | refl => exact ⟨hI, fun _ => hsettled, nofun⟩
  | tail _ h ih => exact ih.next hother hdie hcode h

/-! ## An owner that is alone -/

/-- How the calls are answered. -/
abbrev Server (Q : Type) (A : Q → Type) (D : Type) : Type := (q : Q) → D → A q × D

/-- The end of a program that is answered so, and the data then. -/
def alone (serve : Server Q A D) : Program Q A E α → D → Except E α × D
  | .ret a, d => (.ok a, d)
  | .raise e, d => (.error e, d)
  | .ask q k, d => alone serve (k (serve q d).1) (serve q d).2

variable {serve : Server Q A D} {x : Program Q A E α}

theorem alone_bind : alone serve (x >>= f) d = match alone serve x d with
      | (.ok a, d') => alone serve (f a) d'
      | (.error e, d') => (.error e, d') := by
  induction x generalizing d with
  | ret a => rfl
  | raise e => rfl
  | ask q k ih => exact ih _

/-- A first part that ends with a value. -/
theorem alone_ok {a : α}
    (hx : alone serve x d = (.ok a, d')) : alone serve (x >>= f) d = alone serve (f a) d' := by
  rw [alone_bind, hx]

/-- A first part that raises. -/
theorem alone_error {e : E}
    (hx : alone serve x d = (.error e, d')) : alone serve (x >>= f) d = (.error e, d') := by
  rw [alone_bind, hx]

theorem alone_attempt : alone serve x.attempt d = (.ok (alone serve x d).1, (alone serve x d).2) := by
  induction x generalizing d with
  | ret a => rfl
  | raise e => rfl
  | ask q k ih => exact ih _

theorem alone_ofExcept {x : Except E α} : alone serve (.ofExcept x) d = (x, d) := by
  cases x <;> rfl

variable (hserve : ∀ q d, W.perform q d (serve q d).1 (serve q d).2)

include hserve in
/-- What an owner does alone can happen. -/
theorem reach_alone :
    Reach W code ⟨d, some x⟩ ⟨(alone serve x d).2, none⟩ := by
  induction x generalizing d with
  | ret a => exact .single .finish
  | raise e => exact .single .fail
  | ask q k ih => exact .head (.call (hserve q d)) (ih _)

/-- The owner and the data after so many calls. -/
def after (serve : Server Q A D) : Nat → Program Q A E α → D → Program Q A E α × D
  | 0, x, d => (x, d)
  | _ + 1, .ret a, d => (.ret a, d)
  | _ + 1, .raise e, d => (.raise e, d)
  | n + 1, .ask q k, d => after serve n (k (serve q d).1) (serve q d).2

include hserve

theorem reach_after (n : Nat) :
    Reach W code ⟨d, some x⟩ ⟨(after serve n x d).2, some (after serve n x d).1⟩ := by
  induction n generalizing x d with
  | zero => exact .refl
  | succ n ih =>
    cases x with
    | ret a => exact .refl
    | raise e => exact .refl
    | ask q k => exact .head (.call (hserve q d)) ih

/-- An owner that is alone starts and ends. -/
theorem reach_startAlone {k : K}
    (hk : W.mayStart k d) : Reach W code ⟨d, none⟩ ⟨(alone serve (code k) d).2, none⟩ :=
  .head (.start k hk) (reach_alone hserve)

/-- An owner that is alone starts, and dies after so many calls. -/
theorem reach_startDie {k : K} (n : Nat)
    (hk : W.mayStart k d) (hdie : W.mayDie (after serve n (code k) d).2) : Reach W code ⟨d, none⟩ ⟨(after serve n (code k) d).2, none⟩ :=
  .trans (.head (.start k hk) (reach_after hserve n)) (.single (.die hdie))

end Durable.Owning
