import Docich.Durable.Program
import Mathlib.Logic.Function.Basic

/-!
# Processes that share durable data under several locks

- `Req`, `LockProgram`: requests of a process: take a lock, give one back, or a call;
- `World`: what a call may answer and do to the data, and which locks are only tried;
- `Contract`: the steps a process may take while it holds given locks, and what holds at all times;
- `Contract.Others`: what the others may do to the data in the meantime: steps under locks that are free;
- `Ensures`: every way a program can go on meets a condition, and keeps the contract;
- `Sys`, `Sys.Step`, `Sys.Reach`: any number of processes, started and killed at any time;
- `Sys.Reach.sound`: **when every program keeps the contract, what holds at all times holds of all reachable data, and
  every process that has ended meets its condition**;
- `Sys.act`, `Sys.acts`: runs that can be computed.

A dead process has given its locks back.
-/

namespace Durable.Locks

open Function

open Relation (ReflTransGen)

/-- What a process asks for: a lock, its release, or a call. -/
inductive Req (L Q : Type) : Type where
  | acquire (l : L)
  | release (l : L)
  | call (q : Q)

/-- The answers: a lock may be refused, a call answers what the call answers. -/
abbrev Req.Answer {L Q : Type} (A : Q → Type) : Req L Q → Type
  | .acquire _ => Bool
  | .release _ => Unit
  | .call q => A q

/-- A program of a process that takes locks. -/
abbrev LockProgram (L Q : Type) (A : Q → Type) (E α : Type) : Type := Program (Req L Q) (Req.Answer A) E α

/-- What may happen: `perform q d x d'` says that the call `q` may answer `x` and turn the data `d` into `d'`; a lock
that is `tried` may be refused, any other is waited for. -/
structure World (L Q : Type) (A : Q → Type) (D : Type) where
  perform : (q : Q) → D → A q → D → Prop
  tried : L → Bool

/-- The locks a process holds. -/
abbrev Held (L : Type) : Type := L → Bool

/-- What processes promise each other: `step h d d'` is a step a process may take that holds the locks `h`; `known`
holds at all times, since every such step keeps it. -/
structure Contract (L D : Type) where
  step : Held L → D → D → Prop
  known : D → Prop
  kept : ∀ h d d', known d → step h d d' → known d'

variable {L Q D E K α β : Type} {A : Q → Type}

/-- No lock is held twice. -/
def Apart (h h' : Held L) : Prop := ∀ l, h l = true → h' l = false

/-- Data that come from the given ones by steps of processes that hold none of the locks `h`. -/
abbrev Contract.Others (G : Contract L D) (h : Held L) : D → D → Prop :=
  ReflTransGen fun d d' => ∃ h', Apart h h' ∧ G.step h' d d'

/-- An assertion about the data that the others keep. -/
def Contract.Stable (G : Contract L D) (h : Held L) (P : D → Prop) : Prop :=
  ∀ h' d d', Apart h h' → G.known d → G.step h' d d' → P d → P d'

/-- Whoever holds more locks is disturbed less. -/
theorem Contract.Others.mono {G : Contract L D} {h h' : Held L} {d d' : D} (hh : ∀ l, h' l = true → h l = true)
    (hd : G.Others h d d') : G.Others h' d d' :=
  ReflTransGen.mono (p := fun d d' => ∃ k, Apart h' k ∧ G.step k d d')
    (fun _ _ ⟨k, hk, hs⟩ => ⟨k, fun l hl => hk l (hh l hl), hs⟩) _ _ hd

/-- An assertion that the others keep in one step they keep in many. -/
theorem Contract.Stable.others {G : Contract L D} {h : Held L} {P : D → Prop} (hP : G.Stable h P)
    {d d' : D} (hd : G.Others h d d') (hk : G.known d) (hp : P d) : P d' := by
  have both : G.known d' ∧ P d' := by
    induction hd with
    | refl => exact ⟨hk, hp⟩
    | tail _ hs ih =>
      obtain ⟨k, ha, hs⟩ := hs
      exact ⟨G.kept _ _ _ ih.1 hs, hP _ _ _ ha ih.1 hs ih.2⟩
  exact both.2

section Ensures

variable [DecidableEq L] (W : World L Q A D) (G : Contract L D)

/-- Every run of the program from data `d`, with the locks `h`, ends in `R` and changes the data by allowed steps. -/
def Ensures : LockProgram L Q A E α → Held L → D → (Except E α → Held L → D → Prop) → Prop
  | .ret a, h, d, R => R (.ok a) h d
  | .raise e, h, d, R => R (.error e) h d
  | .ask (.acquire l) k, h, d, R => h l = false ∧ (W.tried l = true → Ensures (k false) h d R) ∧
      ∀ d₁, G.Others h d d₁ → G.known d₁ → Ensures (k true) (Function.update h l true) d₁ R
  | .ask (.release l) k, h, d, R => Ensures (k ()) (Function.update h l false) d R
  | .ask (.call q) k, h, d, R => ∀ d₁, G.Others h d d₁ → G.known d₁ →
      ∀ x d', W.perform q d₁ x d' → G.step h d₁ d' ∧ Ensures (k x) h d' R

variable {W G} {x : LockProgram L Q A E α} {h : Held L} {d : D}

/-- A condition may be replaced by a weaker one. -/
theorem Ensures.mono {R R' : Except E α → Held L → D → Prop}
    (hx : Ensures W G x h d R) (hR : ∀ r h' d', R r h' d' → R' r h' d') : Ensures W G x h d R' := by
  induction x generalizing h d with
  | ret a => exact hR _ _ _ hx
  | raise e => exact hR _ _ _ hx
  | ask q k ih =>
    cases q with
    | acquire l => exact ⟨hx.1, fun ht => ih _ (hx.2.1 ht), fun d₁ hd hi => ih _ (hx.2.2 d₁ hd hi)⟩
    | release l => exact ih _ hx
    | call q => exact fun d₁ hd hi y d' hy => ⟨(hx d₁ hd hi y d' hy).1, ih _ (hx d₁ hd hi y d' hy).2⟩

/-- What follows a result: the rest of a program, or nothing after an exception. -/
def Next (W : World L Q A D) (G : Contract L D) (f : α → LockProgram L Q A E β)
    (R : Except E β → Held L → D → Prop) : Except E α → Held L → D → Prop
  | .ok a, h, d => Ensures W G (f a) h d R
  | .error e, h, d => R (.error e) h d

/-- Requests whose continuations ensure the same. -/
theorem ensures_ask {E' : Type} (q : Req L Q) {k₁ : Req.Answer A q → LockProgram L Q A E α}
    {k₂ : Req.Answer A q → LockProgram L Q A E' β}
    {R₁ : Except E α → Held L → D → Prop} {R₂ : Except E' β → Held L → D → Prop}
    (hk : ∀ x {h : Held L} {d : D}, Ensures W G (k₁ x) h d R₁ ↔ Ensures W G (k₂ x) h d R₂) :
    Ensures W G (.ask q k₁) h d R₁ ↔ Ensures W G (.ask q k₂) h d R₂ := by
  cases q with
  | acquire l =>
    exact and_congr Iff.rfl (and_congr (imp_congr_right fun _ => hk _) (forall_congr' fun d₁ =>
      imp_congr_right fun _ => imp_congr_right fun _ => hk _))
  | release l => exact hk _
  | call q =>
    exact forall_congr' fun d₁ => imp_congr_right fun _ => imp_congr_right fun _ => forall_congr' fun y =>
      forall_congr' fun d' => imp_congr_right fun _ => and_congr Iff.rfl (hk y)

theorem ensures_bind {f : α → LockProgram L Q A E β}
    {R : Except E β → Held L → D → Prop} :
    Ensures W G (x >>= f) h d R ↔ Ensures W G x h d (Next W G f R) := by
  induction x generalizing h d with
  | ret a => exact Iff.rfl
  | raise e => exact Iff.rfl
  | ask q k ih => exact ensures_ask q ih

/-- Catching: the result is handed over as a value. -/
theorem ensures_attempt {R : Except E (Except E α) → Held L → D → Prop} :
    Ensures W G x.attempt h d R ↔ Ensures W G x h d fun r => R (.ok r) := by
  induction x generalizing h d with
  | ret a => exact Iff.rfl
  | raise e => exact Iff.rfl
  | ask q k ih => exact ensures_ask q ih

end Ensures

/-! ## Systems of processes -/

/-- A process: not started, running a program for a call, or dead. -/
inductive Proc (L Q : Type) (A : Q → Type) (E K α : Type) : Type where
  | absent
  | running (k : K) (x : LockProgram L Q A E α)
  | dead

/-- The data, the owners of the locks, and the processes. -/
structure Sys (L Q : Type) (A : Q → Type) (E K α D : Type) : Type where
  data : D
  owner : L → Option Nat
  procs : Nat → Proc L Q A E K α

namespace Sys

/-- The system with process `p` replaced. -/
def put (s : Sys L Q A E K α D) (p : Nat) (x : Proc L Q A E K α) : Sys L Q A E K α D :=
  { s with procs := Function.update s.procs p x }

/-- The locks of process `p`. -/
def holds (s : Sys L Q A E K α D) (p : Nat) : Held L := fun l => decide (s.owner l = some p)

variable (s : Sys L Q A E K α D)

include s

@[simp] theorem put_owner (p : Nat) (x : Proc L Q A E K α) :
    (s.put p x).owner = s.owner := rfl

@[simp] theorem put_procs_self (p : Nat) (x : Proc L Q A E K α) :
    (s.put p x).procs p = x := by
  simp [put]

variable {p q : Nat}

theorem put_procs_ne (x : Proc L Q A E K α) (h : q ≠ p) :
    (s.put p x).procs q = s.procs q := by
  simp [put, update_of_ne h]

omit s

theorem holds_eq_true {s : Sys L Q A E K α D} {l : L} : s.holds p l = true ↔ s.owner l = some p := by
  simp [holds]

theorem holds_eq_false {s : Sys L Q A E K α D} {l : L} : s.holds p l = false ↔ s.owner l ≠ some p := by
  simp [holds]

theorem holds_congr {s t : Sys L Q A E K α D} {l : L} (h : t.owner l = s.owner l) :
    t.holds p l = s.holds p l := by
  simp [holds, h]

include s in
/-- Two processes never hold the same lock. -/
theorem holds_apart (h : q ≠ p) : Apart (s.holds q) (s.holds p) := by
  intro l hl
  rw [holds_eq_true] at hl
  rw [holds_eq_false, hl]
  exact fun e => h (Option.some.inj e)

variable [DecidableEq L] {W : World L Q A D} {code : K → LockProgram L Q A E α}

/-- The locks after process `p` gave back the lock `l`; others keep theirs. -/
def freed (s : Sys L Q A E K α D) (p : Nat) (l : L) : L → Option Nat :=
  if s.owner l = some p then Function.update s.owner l none else s.owner

/-- The locks after process `p` died. -/
def orphaned (s : Sys L Q A E K α D) (p : Nat) : L → Option Nat :=
  fun l => if s.owner l = some p then none else s.owner l

/-- One step of one process, a start, or a death. -/
inductive Step (W : World L Q A D) (code : K → LockProgram L Q A E α) :
    Sys L Q A E K α D → Sys L Q A E K α D → Prop
  | spawn {s : Sys L Q A E K α D} (p : Nat) (k : K) : s.procs p = .absent →
      Step W code s (s.put p (.running k (code k)))
  | refused {s : Sys L Q A E K α D} (p : Nat) {k : K} {l : L} {f : Bool → LockProgram L Q A E α} :
      s.procs p = .running k (.ask (.acquire l) f) → W.tried l = true →
      Step W code s (s.put p (.running k (f false)))
  | enter {s : Sys L Q A E K α D} (p : Nat) {k : K} {l : L} {f : Bool → LockProgram L Q A E α} :
      s.procs p = .running k (.ask (.acquire l) f) → s.owner l = none →
      Step W code s ({ s with owner := Function.update s.owner l (some p) }.put p (.running k (f true)))
  | release {s : Sys L Q A E K α D} (p : Nat) {k : K} {l : L} {f : Unit → LockProgram L Q A E α} :
      s.procs p = .running k (.ask (.release l) f) →
      Step W code s ({ s with owner := s.freed p l }.put p (.running k (f ())))
  | call {s : Sys L Q A E K α D} (p : Nat) {k : K} {q : Q} {f : A q → LockProgram L Q A E α} {x : A q} {d : D} :
      s.procs p = .running k (.ask (.call q) f) → W.perform q s.data x d →
      Step W code s ({ s with data := d }.put p (.running k (f x)))
  | die {s : Sys L Q A E K α D} (p : Nat) {k : K} {x : LockProgram L Q A E α} :
      s.procs p = .running k x → Step W code s ({ s with owner := s.orphaned p }.put p .dead)

/-- The systems that can be reached. -/
abbrev Reach (W : World L Q A D) (code : K → LockProgram L Q A E α) :
    Sys L Q A E K α D → Sys L Q A E K α D → Prop := ReflTransGen (Step W code)

/-- No process started yet. -/
def start (d : D) : Sys L Q A E K α D := ⟨d, fun _ => none, fun _ => .absent⟩

/-! ## Soundness -/

/-- What a process knows: what its program ensures from some earlier data, after which only the others moved. -/
def Knows (W : World L Q A D) (G : Contract L D) (Post : K → Except E α → Held L → D → Prop) (d : D) (h : Held L) :
    Proc L Q A E K α → Prop
  | .absent => ∀ l, h l = false
  | .running k x => ∃ d₁, G.known d₁ ∧ G.Others h d₁ d ∧ Ensures W G x h d₁ (Post k)
  | .dead => True

/-- The invariant of runs. -/
structure Sound (W : World L Q A D) (G : Contract L D) (Post : K → Except E α → Held L → D → Prop)
    (s : Sys L Q A E K α D) : Prop where
  known : G.known s.data
  knows : ∀ p, Knows W G Post s.data (s.holds p) (s.procs p)

variable {G : Contract L D} {Post : K → Except E α → Held L → D → Prop}

/-- A process keeps its knowledge when another one moves the data on. -/
theorem Knows.since {d d' : D} {h k : Held L} {x : Proc L Q A E K α} (hx : Knows W G Post d h x) (ha : Apart h k)
    (hd : d' = d ∨ G.step k d d') : Knows W G Post d' h x := by
  cases x with
  | absent => exact hx
  | dead => exact hx
  | running k x =>
    obtain ⟨d₁, hk, h₁, hx⟩ := hx
    rcases hd with rfl | hd
    · exact ⟨d₁, hk, h₁, hx⟩
    · exact ⟨d₁, hk, h₁.tail ⟨_, ha, hd⟩, hx⟩

/-- Process `p` moved, the data by at most one step of its own: enough to look at that process. -/
theorem Sound.step {s s' : Sys L Q A E K α D} (h : Sound W G Post s) (hn : G.known s'.data)
    (hd : s'.data = s.data ∨ G.step (s.holds p) s.data s'.data) (hp : ∀ q, q ≠ p → s'.procs q = s.procs q)
    (ho : ∀ q, q ≠ p → s'.holds q = s.holds q)
    (hk : Knows W G Post s'.data (s'.holds p) (s'.procs p)) : Sound W G Post s' := by
  refine ⟨hn, fun q => ?_⟩
  by_cases hq : q = p
  · rw [hq]
    exact hk
  · rw [hp q hq, ho q hq]
    exact (h.knows q).since (s.holds_apart hq) hd

/-- One step keeps the invariant. -/
theorem Sound.next {s s' : Sys L Q A E K α D} (h : Sound W G Post s)
    (hcode : ∀ k d, G.known d → Ensures W G (code k) (fun _ => false) d (Post k))
    (hs : Step W code s s') : Sound W G Post s' := by
  cases hs with
  | spawn p k e =>
    have hn := h.knows p
    rw [e] at hn
    refine h.step (p := p) h.known (.inl rfl) (fun q hq => put_procs_ne _ _ hq) (fun q _ => rfl) ?_
    rw [put_procs_self]
    have hf : (s.put p (.running k (code k))).holds p = fun _ => false := funext hn
    rw [hf]
    exact ⟨s.data, h.known, .refl, hcode k _ h.known⟩
  | refused p e ht =>
    have hk := h.knows p
    rw [e] at hk
    refine h.step (p := p) h.known (.inl rfl) (fun q hq => put_procs_ne _ _ hq) (fun q _ => rfl) ?_
    rw [put_procs_self]
    obtain ⟨d₁, hn, h₁, hx⟩ := hk
    exact ⟨d₁, hn, h₁, hx.2.1 ht⟩
  | enter p e ho =>
    next k l f =>
    have hk := h.knows p
    rw [e] at hk
    obtain ⟨d₁, hn, h₁, hx⟩ := hk
    have hheld : ∀ q, q ≠ p → (({ s with owner := update s.owner l (some p) } : Sys L Q A E K α D).put p
        (.running k (f true))).holds q = s.holds q := by
      intro q hq
      funext m
      by_cases hm : m = l
      · subst hm
        simp [holds, ho, Ne.symm hq]
      · exact holds_congr (by simp [update_of_ne hm])
    refine h.step (p := p) h.known (.inl rfl) (fun q hq => put_procs_ne _ _ hq) hheld ?_
    rw [put_procs_self]
    have hself : (({ s with owner := update s.owner l (some p) } : Sys L Q A E K α D).put p
        (.running k (f true))).holds p = update (s.holds p) l true := by
      funext m
      by_cases hm : m = l
      · subst hm
        simp [holds]
      · rw [update_of_ne hm]
        exact holds_congr (by simp [update_of_ne hm])
    rw [hself]
    exact ⟨s.data, h.known, .refl, hx.2.2 _ h₁ h.known⟩
  | release p e =>
    next k l f =>
    have hk := h.knows p
    rw [e] at hk
    obtain ⟨d₁, hn, h₁, hx⟩ := hk
    have hheld : ∀ q, q ≠ p → (({ s with owner := s.freed p l } : Sys L Q A E K α D).put p
        (.running k (f ()))).holds q = s.holds q := by
      intro q hq
      funext m
      by_cases hl : s.owner l = some p
      · by_cases hm : m = l
        · subst hm
          simp [holds, freed, hl, Ne.symm hq]
        · exact holds_congr (by simp [freed, hl, update_of_ne hm])
      · exact holds_congr (by simp [freed, hl])
    refine h.step (p := p) h.known (.inl rfl) (fun q hq => put_procs_ne _ _ hq) hheld ?_
    rw [put_procs_self]
    have hself : (({ s with owner := s.freed p l } : Sys L Q A E K α D).put p
        (.running k (f ()))).holds p = update (s.holds p) l false := by
      funext m
      by_cases hl : s.owner l = some p
      · by_cases hm : m = l
        · subst hm
          simp [holds, freed, hl]
        · rw [update_of_ne hm]
          exact holds_congr (by simp [freed, hl, update_of_ne hm])
      · by_cases hm : m = l
        · subst hm
          simp [holds, freed, hl]
        · rw [update_of_ne hm]
          exact holds_congr (by simp [freed, hl])
    rw [hself]
    refine ⟨d₁, hn, h₁.mono fun m hm => ?_, hx⟩
    by_cases hml : m = l
    · subst hml
      simp at hm
    · rwa [update_of_ne hml] at hm
  | call p e hx =>
    next d =>
    have hk := h.knows p
    rw [e] at hk
    obtain ⟨d₁, hn, h₁, hy⟩ := hk
    have hc := hy _ h₁ h.known _ _ hx
    have hnew := G.kept _ _ _ h.known hc.1
    refine h.step (p := p) hnew (.inr hc.1) (fun q hq => put_procs_ne _ _ hq) (fun q _ => rfl) ?_
    rw [put_procs_self]
    exact ⟨d, hnew, .refl, hc.2⟩
  | die p e =>
    refine h.step (p := p) h.known (.inl rfl) (fun q hq => put_procs_ne _ _ hq) (fun q hq => ?_) ?_
    · funext m
      by_cases hm : s.owner m = some p
      · simp [holds, orphaned, hm, Ne.symm hq]
      · exact holds_congr (by simp [orphaned, hm])
    · rw [put_procs_self]
      exact trivial

/-- One step leaves the data, or changes them as the contract allows. -/
theorem Sound.moved {s s' : Sys L Q A E K α D} (h : Sound W G Post s) (hs : Step W code s s') :
    s'.data = s.data ∨ ∃ held, G.step held s.data s'.data := by
  cases hs with
  | spawn | refused | enter | release | die => exact .inl rfl
  | call p e hx =>
    have hk := h.knows p
    rw [e] at hk
    obtain ⟨d₁, -, h₁, hy⟩ := hk
    exact .inr ⟨_, (hy _ h₁ h.known _ _ hx).1⟩

/-- **Soundness.** When every program keeps the contract, every reachable system keeps the invariant. -/
theorem Reach.sound {d₀ : D} {s : Sys L Q A E K α D} (hstart : G.known d₀)
    (hcode : ∀ k d, G.known d → Ensures W G (code k) (fun _ => false) d (Post k))
    (hs : Reach W code (start d₀) s) : Sound W G Post s := by
  induction hs with
  | refl => exact ⟨hstart, fun p _ => by simp [holds, start]⟩
  | tail _ h ih => exact ih.next hcode h

/-- A process that has ended meets the condition of its call, at the last data it saw. -/
theorem Sound.ended {s : Sys L Q A E K α D} (h : Sound W G Post s) {k : K} {a : α}
    (e : s.procs p = .running k (.ret a)) :
    ∃ d, G.known d ∧ G.Others (s.holds p) d s.data ∧ Post k (.ok a) (s.holds p) d := by
  have hk := h.knows p
  rw [e] at hk
  exact hk

/-! ## Runs that can be computed -/

/-- How the surroundings answer. -/
abbrev Server (Q : Type) (A : Q → Type) (D : Type) : Type := (q : Q) → D → Option (A q × D)

/-- A start, a number of steps of one process with the surroundings that answer it, or a death. -/
inductive Action (Q : Type) (A : Q → Type) (K D : Type) : Type where
  | spawn (p : Nat) (k : K)
  | go (p n : Nat) (serve : Server Q A D)
  | die (p : Nat)

/-- One step of process `p`; a lock that is taken is refused where it may be. -/
def next (W : World L Q A D) (serve : Server Q A D) (p : Nat) (s : Sys L Q A E K α D) : Option (Sys L Q A E K α D) :=
  match s.procs p with
  | .running k (.ask (.acquire l) f) =>
    if s.owner l = none then some ({ s with owner := Function.update s.owner l (some p) }.put p (.running k (f true)))
    else if W.tried l then some (s.put p (.running k (f false)))
    else none
  | .running k (.ask (.release l) f) => some ({ s with owner := s.freed p l }.put p (.running k (f ())))
  | .running k (.ask (.call q) f) => (serve q s.data).map fun r => { s with data := r.2 }.put p (.running k (f r.1))
  | _ => none

/-- At most `n` steps of process `p`: until it ends, waits, or is not answered. -/
def steps (W : World L Q A D) (serve : Server Q A D) (p : Nat) : Nat → Sys L Q A E K α D → Sys L Q A E K α D
  | 0, s => s
  | n + 1, s =>
    match next W serve p s with
    | some t => steps W serve p n t
    | none => s

def act (W : World L Q A D) (code : K → LockProgram L Q A E α) (a : Action Q A K D) (s : Sys L Q A E K α D) :
    Sys L Q A E K α D :=
  match a with
  | .spawn p k =>
    match s.procs p with
    | .absent => s.put p (.running k (code k))
    | _ => s
  | .go p n serve => steps W serve p n s
  | .die p =>
    match s.procs p with
    | .running _ _ => { s with owner := s.orphaned p }.put p .dead
    | _ => s

def acts (W : World L Q A D) (code : K → LockProgram L Q A E α) (as : List (Action Q A K D)) (s : Sys L Q A E K α D) :
    Sys L Q A E K α D := as.foldl (fun s a => act W code a s) s

/-- The surroundings answer as the world allows. -/
def Serves (W : World L Q A D) (serve : Server Q A D) : Prop :=
  ∀ q d x d', serve q d = some (x, d') → W.perform q d x d'

/-- The surroundings of an action answer as the world allows. -/
def Action.Fair (W : World L Q A D) : Action Q A K D → Prop
  | .go _ _ serve => Serves W serve
  | _ => True

theorem next_step {serve : Server Q A D} (hw : Serves W serve) {s t : Sys L Q A E K α D}
    (h : next W serve p s = some t) : Step W code s t := by
  unfold next at h
  split at h
  · next e =>
    split at h
    · next ho =>
      cases h
      exact .enter p e ho
    · split at h
      · next ht =>
        cases h
        exact .refused p e ht
      · cases h
  · next e =>
    cases h
    exact .release p e
  · next e =>
    obtain ⟨r, hr, rfl⟩ := Option.map_eq_some_iff.mp h
    exact .call p e (hw _ _ _ _ hr)
  · cases h

theorem steps_reach {serve : Server Q A D} (hw : Serves W serve) (p n : Nat) (s : Sys L Q A E K α D) :
    Reach W code s (steps W serve p n s) := by
  induction n generalizing s with
  | zero => exact .refl
  | succ n ih =>
    rw [steps]
    split
    · next hn => exact .head (next_step hw hn) (ih _)
    · exact .refl

theorem act_reach {a : Action Q A K D} (ha : a.Fair W) (s : Sys L Q A E K α D) :
    Reach W code s (act W code a s) := by
  cases a with
  | spawn p k =>
    rw [act]
    split
    · next e => exact .single (.spawn p k e)
    · exact .refl
  | go p n serve => exact steps_reach ha p n s
  | die p =>
    rw [act]
    split
    · next e => exact .single (.die p e)
    · exact .refl

/-- What is computed can be reached. -/
theorem acts_reach {as : List (Action Q A K D)} (ha : ∀ a ∈ as, a.Fair W) (s : Sys L Q A E K α D) :
    Reach W code s (acts W code as s) := by
  induction as generalizing s with
  | nil => exact .refl
  | cons a as ih =>
    exact (act_reach (ha a List.mem_cons_self) s).trans (ih (fun b hb => ha b (List.mem_cons_of_mem _ hb)) _)

end Sys

end Durable.Locks
