import Docich.Durable.Fair
import Docich.FileLock.Lock

/-!
# A waiting process, and the lock as a whole

- `Pc.tries`: a process in the loop of `acquire`;
- `Fair`: whoever can move does so some day, or dies; `Endless.meets`: the step of a process comes;
- `comes_round`: a process in the loop comes back to its `mkdir`;
- `someone_acquires`: **in careful runs in which time goes on and deaths come to an end, a process that waits without
  a limit sees somebody take the lock**;
- `careful_lock`: both halves, for every careful run.
-/

namespace Docich.FileLock

open Durable Option

variable {stale : Nat} {s s' : State} {p q : Nat} {σ : Nat → State} {e : Nat → Event}

/-! ## One process -/

/-- The process is in the loop of `acquire`, on its way to its own directory. -/
def Pc.tries (a : Attempt) : Pc → Prop
  | .making b | .statting b | .timing b _ _ | .reading b _ _ _ | .probing b _ _ | .removing b _ | .checking b => b = a
  | _ => False

/-- The steps until the process is back at its `mkdir`. -/
def Pc.left : Pc → Nat
  | .checking _ => 1
  | .removing _ _ => 2
  | .probing _ _ _ => 3
  | .reading _ _ _ _ => 4
  | .timing _ _ _ => 5
  | .statting _ => 6
  | _ => 0

/-- An attempt without a limit. -/
def Attempt.unlimited (a : Attempt) : Prop := a.maxWait = 0 ∧ a.deadline = none

variable {a : Attempt}

theorem Attempt.unlimited.not_over (h : a.unlimited) (now : Nat) : a.over now = false := by
  simp [Attempt.over, h.1, h.2]

theorem Pc.tries.busy {x : Pc} (h : x.tries a) : x.busy = true := by
  cases x <;> first | rfl | exact h.elim

theorem Pc.tries.making {x : Pc} (h : x.tries a) (hl : x.left = 0) : x = .making a := by
  cases x with
  | making b =>
    have hb : b = a := h
    rw [hb]
  | idle => exact h.elim
  | dead => exact h.elim
  | writing _ _ _ => exact h.elim
  | holding _ _ _ => exact h.elim
  | releasing _ _ => exact h.elim
  | deleting _ _ => exact h.elim
  | _ => cases hl

/-- **What a move can do**: the process goes on, and the directory is made, written into, removed or left alone. -/
theorem move_cases (hs : move stale s p = some s') : ∃ dir next x, s' = { s with dir := dir, next := next }.set p x ∧
    (dir = s.dir ∨ dir = none ∨ (∃ a n t, x = .writing a n t) ∨ ∃ a n t, s.procs p = .writing a n t) := by
  unfold move at hs
  split at hs
  · split at hs <;> cases hs
    · exact ⟨_, _, _, rfl, .inr (.inr (.inl ⟨_, _, _, rfl⟩))⟩
    · exact ⟨_, _, _, rfl, .inl rfl⟩
  · next a n t hx =>
    split at hs <;> cases hs
    · exact ⟨_, _, _, rfl, .inl rfl⟩
    · exact ⟨_, _, _, rfl, .inr (.inr (.inr ⟨a, n, t, hx⟩))⟩
  · split at hs <;> cases hs
    · exact ⟨_, _, _, rfl, .inl rfl⟩
    · exact ⟨_, _, _, rfl, .inl rfl⟩
  · cases hs
    exact ⟨_, _, _, rfl, .inl rfl⟩
  · cases hs
    exact ⟨_, _, _, rfl, .inl rfl⟩
  · cases hs
    exact ⟨_, _, _, rfl, .inl rfl⟩
  · cases hs
    exact ⟨_, _, _, rfl, .inr (.inl rfl)⟩
  · cases hs
    exact ⟨_, _, _, rfl, .inl rfl⟩
  · cases hs
    exact ⟨_, _, _, rfl, .inl rfl⟩
  · cases hs
    exact ⟨_, _, _, rfl, .inr (.inl rfl)⟩
  · cases hs
  · cases hs
  · cases hs

/-- A process that can move stays where it is until it moves or dies. -/
theorem step_other {a : Event} (hs : step stale s a = some s') (hb : (s.procs q).busy = true) (hm : a ≠ .move q)
    (hd : a ≠ .die q) : s'.procs q = s.procs q := by
  cases a with
  | tick n =>
    cases hs
    rfl
  | move p =>
    obtain ⟨dir, next, x, rfl, -⟩ := move_cases hs
    exact State.set_ne _ _ fun e => hm (by rw [e])
  | acquire p stamp maxWait deadline =>
    simp only [step] at hs
    split at hs
    · next hidle =>
      cases hs
      refine State.set_ne _ _ fun e => ?_
      rw [e, hidle] at hb
      cases hb
    · cases hs
  | release p =>
    simp only [step] at hs
    split at hs
    · next a n t hheld =>
      cases hs
      refine State.set_ne _ _ fun e => ?_
      rw [e, hheld] at hb
      cases hb
    · cases hs
  | die p =>
    simp only [step] at hs
    split at hs
    · cases hs
    · cases hs
      exact State.set_ne _ _ fun e => hd (by rw [e])

theorem step_now {a : Event} (hs : step stale s a = some s') : s.now ≤ s'.now := by
  cases a with
  | tick n =>
    cases hs
    exact Nat.le_add_right _ _
  | move p =>
    obtain ⟨dir, next, x, rfl, -⟩ := move_cases hs
    exact Nat.le_refl _
  | acquire p stamp maxWait deadline =>
    simp only [step] at hs
    split at hs <;> cases hs
    exact Nat.le_refl _
  | release p =>
    simp only [step] at hs
    split at hs <;> cases hs
    exact Nat.le_refl _
  | die p =>
    simp only [step] at hs
    split at hs <;> cases hs
    exact Nat.le_refl _

/-- How the directory changes: it is made, written into by its maker, or removed. -/
theorem step_dir {a : Event} (hs : step stale s a = some s') : s'.dir = s.dir ∨ s'.dir = none ∨
    (∃ p b n t, s'.procs p = .writing b n t) ∨ ∃ p b n t, s.procs p = .writing b n t := by
  cases a with
  | tick n =>
    cases hs
    exact .inl rfl
  | move p =>
    obtain ⟨dir, next, x, rfl, h⟩ := move_cases hs
    rcases h with h | h | ⟨a, n, t, h⟩ | ⟨a, n, t, h⟩
    · exact .inl h
    · exact .inr (.inl h)
    · exact .inr (.inr (.inl ⟨p, a, n, t, by rw [State.set_self, h]⟩))
    · exact .inr (.inr (.inr ⟨p, a, n, t, h⟩))
  | acquire p stamp maxWait deadline =>
    simp only [step] at hs
    split at hs <;> cases hs
    exact .inl rfl
  | release p =>
    simp only [step] at hs
    split at hs <;> cases hs
    exact .inl rfl
  | die p =>
    simp only [step] at hs
    split at hs <;> cases hs
    exact .inl rfl

/-- A process in the loop without a limit goes one step round, or makes its directory. -/
theorem tries_move (ha : a.unlimited) (ht : (s.procs q).tries a) (hs : step stale s (.move q) = some s') :
    (∃ n t, s'.procs q = .writing a n t) ∨ (s'.procs q).tries a ∧
      ((s.procs q).left = 0 ∨ (s'.procs q).left < (s.procs q).left) := by
  simp only [step, move] at hs
  cases hx : s.procs q <;> rw [hx] at ht <;> first | exact ht.elim | skip
  all_goals simp only [hx] at hs
  all_goals obtain rfl := ht
  case making b =>
    cases hd : s.dir <;> simp only [hd, some.injEq] at hs <;> subst hs
    · exact .inl ⟨_, _, State.set_self _ _ _⟩
    · exact .inr ⟨by simp [Pc.tries], .inl rfl⟩
  case statting b =>
    cases hd : s.dir <;> simp only [hd, some.injEq] at hs <;> subst hs
    · exact .inr ⟨by simp [Pc.tries], .inr (by simp [Pc.left])⟩
    · exact .inr ⟨by simp [Pc.tries], .inr (by simp [Pc.left])⟩
  case probing b seen old =>
    simp only [some.injEq] at hs
    subst hs
    refine .inr ?_
    rw [State.set_self]
    split
    · exact ⟨rfl, .inr (by simp [Pc.left])⟩
    · exact ⟨rfl, .inr (by simp [Pc.left])⟩
  case checking b =>
    simp only [ha.not_over, some.injEq] at hs
    subst hs
    exact .inr ⟨by simp [Pc.tries], .inr (by simp [Pc.left])⟩
  all_goals
    simp only [some.injEq] at hs
    subst hs
    exact .inr ⟨by simp [Pc.tries], .inr (by simp [Pc.left])⟩

/-! ## Runs -/

/-- Whoever can move does so some day, or dies. -/
def Fair (σ : Nat → State) (e : Nat → Event) : Prop :=
  ∀ p n, ((σ n).procs p).busy = true → ∃ m, n ≤ m ∧ (e m = .move p ∨ e m = .die p)

/-- Somebody takes the lock: `acquire` returns. -/
def Acquires (σ : Nat → State) (n : Nat) : Prop :=
  ∃ p a k t, (σ n).procs p = .writing a k t ∧ ∃ u, (σ (n + 1)).procs p = .holding a k u

/-- A run of careful steps, under the invariant, in which nobody dies from the moment `n` on. -/
structure Calm (stale : Nat) (σ : Nat → State) (e : Nat → Event) (n : Nat) : Prop where
  run : Endless (step stale) σ e
  inv : ∀ m, Inv stale (σ m)
  careful : ∀ m, Careful stale (σ m) (e m)
  fair : Fair σ e
  alive : ∀ m, n ≤ m → ∀ p, e m ≠ .die p

variable {n m t : Nat}

/-- The step of a process that can move comes, and finds it where it was. -/
theorem Calm.meets (h : Calm stale σ e n) (hm : n ≤ m) (hb : ((σ m).procs p).busy = true) :
    ∃ k, m ≤ k ∧ (σ k).procs p = (σ m).procs p ∧ e k = .move p := by
  refine exists_moment (P := fun k => (σ k).procs p = (σ m).procs p) rfl ?_ fun k hk hp hno => ?_
  · obtain ⟨k, hk, hmove | hdie⟩ := h.fair p m hb
    · exact ⟨k, hk, hmove⟩
    · exact absurd hdie (h.alive k (Nat.le_trans hm hk) p)
  · rw [← hp] at hb ⊢
    exact step_other (h.run k) hb hno (h.alive k (Nat.le_trans hm hk) p)

/-- A careful write succeeds. -/
theorem write_succeeds (h : Inv stale s) (hc : Careful stale s (.move p))
    (hx : s.procs p = .writing a n t) (hs : step stale s (.move p) = some s') : ∃ u, s'.procs p = .holding a n u := by
  simp only [Careful, hx] at hc
  simp only [step, move, hx] at hs
  rcases h.writing p a n t hx with hlate | hd
  · omega
  · simp only [hd, some.injEq] at hs
    subst hs
    exact ⟨_, State.set_self _ _ _⟩

/-- Where nobody takes the lock, nobody has made a directory for it. -/
theorem Calm.nobody_writes (h : Calm stale σ e n) (hno : ∀ m, n ≤ m → ¬ Acquires σ m) (hm : n ≤ m)
    {k : Nat} : (σ m).procs p ≠ .writing a k t := by
  intro hx
  obtain ⟨i, hi, hp, hmove⟩ := h.meets hm (by rw [hx]; rfl)
  rw [hx] at hp
  have hc := h.careful i
  have hs := h.run i
  rw [hmove] at hc hs
  obtain ⟨u, hu⟩ := write_succeeds (h.inv i) hc hp hs
  exact hno i (Nat.le_trans hm hi) ⟨p, a, k, t, hp, u, hu⟩

/-- A process in the loop comes back to its `mkdir`, by induction on the steps that are left. -/
theorem Calm.comes_round (h : Calm stale σ e n) (hno : ∀ m, n ≤ m → ¬ Acquires σ m)
    (ha : a.unlimited) (r : Nat) : ∀ m, n ≤ m → ((σ m).procs q).tries a → ((σ m).procs q).left ≤ r →
      ∃ k, m ≤ k ∧ (σ k).procs q = .making a ∧ e k = .move q := by
  induction r with
  | zero =>
    intro m hm ht hr
    obtain ⟨k, hk, hp, hmove⟩ := h.meets hm ht.busy
    exact ⟨k, hk, hp.trans (ht.making (Nat.le_zero.mp hr)), hmove⟩
  | succ r ih =>
    intro m hm ht hr
    obtain ⟨k, hk, hp, hmove⟩ := h.meets hm ht.busy
    have hs := h.run k
    rw [hmove] at hs
    have ht' : ((σ k).procs q).tries a := by rw [hp]; exact ht
    rcases tries_move ha ht' hs with ⟨i, t, hw⟩ | ⟨htries, hleft | hlt⟩
    · exact absurd hw (h.nobody_writes hno (by omega))
    · rw [hp] at hleft
      obtain ⟨k', hk', hmaking⟩ := ih k (Nat.le_trans hm hk) ht' (by rw [hp, hleft]; exact Nat.zero_le r)
      exact ⟨k', Nat.le_trans hk hk', hmaking⟩
    · rw [hp] at hlt
      obtain ⟨k', hk', hmaking⟩ := ih (k + 1) (by omega) htries (by omega)
      exact ⟨k', by omega, hmaking⟩

/-- Where nobody takes the lock, the directory stays what it is. -/
theorem Calm.dir_stays (h : Calm stale σ e n) (hno : ∀ m, n ≤ m → ¬ Acquires σ m)
    (ha : a.unlimited) (ht : ∀ m, n ≤ m → ((σ m).procs q).tries a) : ∃ d, ∀ m, n ≤ m → (σ m).dir = some d := by
  have hthere : ∀ m, n ≤ m → (σ m).dir ≠ none := by
    intro m hm hnone
    -- a free path stays free until somebody makes the directory, and the waiting process is about to
    have hfree : ∀ k, m ≤ k → (σ k).dir = none := by
      refine holds_from hnone fun k hk hdir => ?_
      rcases step_dir (h.run k) with hs | hs | ⟨p, b, i, t, hw⟩ | ⟨p, b, i, t, hw⟩
      · rw [hs, hdir]
      · exact hs
      · exact absurd hw (h.nobody_writes hno (by omega))
      · exact absurd hw (h.nobody_writes hno (by omega))
    obtain ⟨k, hk, hmaking, hmove⟩ := h.comes_round hno ha _ m hm (ht m hm) (Nat.le_refl _)
    have hs := h.run k
    rw [hmove] at hs
    simp only [step, move, hmaking, hfree k hk, some.injEq] at hs
    have hw : (σ (k + 1)).procs q = .writing a (σ k).next (σ k).now := by
      rw [← hs]
      exact State.set_self _ _ _
    exact h.nobody_writes hno (by omega) hw
  obtain ⟨d, hd⟩ := ne_none_iff_exists'.mp (hthere n (Nat.le_refl n))
  refine ⟨d, holds_from hd fun m hm hdir => ?_⟩
  rcases step_dir (h.run m) with hs | hs | ⟨p, b, i, t, hw⟩ | ⟨p, b, i, t, hw⟩
  · rw [hs, hdir]
  · exact absurd hs (hthere (m + 1) (by omega))
  · exact absurd hw (h.nobody_writes hno (by omega))
  · exact absurd hw (h.nobody_writes hno hm)

/-- A process that looks at an old directory removes it. -/
theorem Calm.removes (h : Calm stale σ e n) (hm : n ≤ m) {d : Dir}
    (hdir : ∀ k, m ≤ k → (σ k).dir = some d) (hold : ∀ k, m ≤ k → d.mtime + stale < (σ k).now)
    (hmaking : (σ m).procs q = .making a) : ∃ k, m ≤ k ∧ (σ k).dir = none := by
  -- one step of the process after the other, each found where the last one left it
  have next : ∀ {x y : Pc} {k : Nat}, m ≤ k → (σ k).procs q = x → x.busy = true →
      (∀ i, m ≤ i → (σ i).procs q = x → ∀ s', step stale (σ i) (.move q) = some s' → s'.procs q = y) →
      ∃ i, m ≤ i ∧ (σ i).procs q = y := by
    intro x y k hk hx hb hy
    obtain ⟨i, hi, hp, hmove⟩ := h.meets (Nat.le_trans hm hk) (by rw [hx]; exact hb)
    have hs := h.run i
    rw [hmove] at hs
    exact ⟨i + 1, by omega, hy i (by omega) (hp.trans hx) _ hs⟩
  obtain ⟨k₁, h₁, hp₁⟩ := next (y := .statting a) (Nat.le_refl m) hmaking rfl fun i hi hp s' hs => by
    simp only [step, move, hp, hdir i hi, some.injEq] at hs
    rw [← hs]
    exact State.set_self _ _ _
  obtain ⟨k₂, h₂, hp₂⟩ := next (y := .timing a d.number d.mtime) h₁ hp₁ rfl fun i hi hp s' hs => by
    simp only [step, move, hp, hdir i hi, some.injEq] at hs
    rw [← hs]
    exact State.set_self _ _ _
  obtain ⟨k₃, h₃, hp₃⟩ := next (y := .reading a d.number d.mtime true) h₂ hp₂ rfl fun i hi hp s' hs => by
    have hlate := hold i hi
    have hsub : stale < (σ i).now - d.mtime := by omega
    simp only [step, move, hp, some.injEq] at hs
    rw [← hs, State.set_self]
    simp [hsub]
  obtain ⟨k₄, h₄, hp₄⟩ := next (y := .probing a ⟨d.number, d.mtime, d.owner⟩ true) h₃ hp₃ rfl fun i hi hp s' hs => by
    simp only [step, move, hp, hdir i hi, some.injEq] at hs
    rw [← hs]
    exact State.set_self _ _ _
  obtain ⟨k₅, h₅, hp₅⟩ := next (y := .removing a ⟨d.number, d.mtime, d.owner⟩) h₄ hp₄ rfl fun i hi hp s' hs => by
    simp only [step, move, hp, Bool.or_true, if_true, some.injEq] at hs
    rw [← hs]
    exact State.set_self _ _ _
  obtain ⟨k₆, h₆, hp₆, hmove⟩ := h.meets (Nat.le_trans hm h₅) (p := q) (by rw [hp₅]; rfl)
  have hs := h.run k₆
  rw [hmove] at hs
  simp only [step, move, hp₆, hp₅, some.injEq] at hs
  exact ⟨k₆ + 1, by omega, by rw [← hs]; rfl⟩

/-- A process that waits without a limit goes on waiting until it takes the lock itself. -/
theorem tries_on (hrun : Endless (step stale) σ e) (hinv : ∀ m, Inv stale (σ m))
    (hcareful : ∀ m, Careful stale (σ m) (e m)) (ha : a.unlimited) (ht : ((σ n).procs q).tries a)
    (halive : ∀ m, n ≤ m → e m ≠ .die q) (hno : ∀ m, n ≤ m → ¬ Acquires σ m) :
    ∀ m, n ≤ m → ((σ m).procs q).tries a ∨ ∃ k t, (σ m).procs q = .writing a k t := by
  refine holds_from (.inl ht) fun m hm hp => ?_
  have hs := hrun m
  by_cases hmove : e m = .move q
  · have hc := hcareful m
    rw [hmove] at hs hc
    rcases hp with htries | ⟨k, t, hw⟩
    · rcases tries_move ha htries hs with hw | ⟨htries, -⟩
      · exact .inr hw
      · exact .inl htries
    · obtain ⟨u, hu⟩ := write_succeeds (hinv m) hc hw hs
      exact absurd ⟨q, a, k, t, hw, u, hu⟩ (hno m hm)
  · have hb : ((σ m).procs q).busy = true := by
      rcases hp with htries | ⟨k, t, hw⟩
      · exact htries.busy
      · rw [hw]
        rfl
    rw [step_other hs hb hmove (halive m hm)]
    exact hp

/-- **Somebody takes the lock**, in a run of careful steps in which time goes on and deaths come to an end. -/
theorem someone_acquires (hrun : Endless (step stale) σ e) (hinv : ∀ m, Inv stale (σ m))
    (hcareful : ∀ m, Careful stale (σ m) (e m)) (hfair : Fair σ e) (htime : ∀ t, ∃ m, t ≤ (σ m).now)
    (hdeaths : ∃ N, ∀ m, N ≤ m → ∀ p, e m ≠ .die p) (ha : a.unlimited) (ht : ((σ n).procs q).tries a)
    (halive : ∀ m, n ≤ m → e m ≠ .die q) : ∃ m, n ≤ m ∧ Acquires σ m := by
  by_contra hnone
  have hno : ∀ m, n ≤ m → ¬ Acquires σ m := fun m hm hacq => hnone ⟨m, hm, hacq⟩
  obtain ⟨N, hN⟩ := hdeaths
  have hcalm : Calm stale σ e (max n N) :=
    ⟨hrun, hinv, hcareful, hfair, fun m hm => hN m (Nat.le_trans (Nat.le_max_right _ _) hm)⟩
  have hno' : ∀ m, max n N ≤ m → ¬ Acquires σ m := fun m hm => hno m (Nat.le_trans (Nat.le_max_left _ _) hm)
  have htries : ∀ m, max n N ≤ m → ((σ m).procs q).tries a := by
    intro m hm
    rcases tries_on hrun hinv hcareful ha ht halive hno m (Nat.le_trans (Nat.le_max_left _ _) hm) with h | ⟨k, t, hw⟩
    · exact h
    · exact absurd hw (hcalm.nobody_writes hno' hm)
  obtain ⟨d, hd⟩ := hcalm.dir_stays hno' ha htries
  obtain ⟨m₁, hm₁⟩ := htime (d.mtime + stale + 1)
  have hold : ∀ m, m₁ ≤ m → d.mtime + stale < (σ m).now :=
    holds_from (by omega) fun m _ hm => Nat.lt_of_lt_of_le hm (step_now (hrun m))
  obtain ⟨m, hm, hmaking, -⟩ := hcalm.comes_round hno' ha _ (max (max n N) m₁) (Nat.le_max_left _ _)
    (htries _ (Nat.le_max_left _ _)) (Nat.le_refl _)
  obtain ⟨k, hk, hgone⟩ := hcalm.removes (by omega) (fun k hk => hd k (by omega)) (fun k hk => hold k (by omega)) hmaking
  rw [hd k (by omega)] at hgone
  cases hgone

/-! ## The lock -/

/-- Process 1 takes the free lock, and keeps it while time goes on. -/
def soloEvent : Nat → Event
  | 0 => .acquire 1 0 0 none
  | 1 => .move 1
  | 2 => .move 1
  | _ => .tick 1

/-- Where process 1 stands in that run. -/
def soloPc : Nat → Pc
  | 0 => .idle
  | 1 => .making ⟨⟨1, 0⟩, 0, none, 0⟩
  | 2 => .writing ⟨⟨1, 0⟩, 0, none, 0⟩ 0 0
  | _ => .holding ⟨⟨1, 0⟩, 0, none, 0⟩ 0 0

/-- The directory in that run. -/
def soloDir : Nat → Option Dir
  | 0 | 1 => none
  | 2 => some ⟨0, 0, none⟩
  | _ => some ⟨0, 0, some ⟨⟨1, 0⟩, 1⟩⟩

/-- The states of that run. -/
def soloState (n : Nat) : State where
  now := n - 3
  dir := soloDir n
  next := if n ≤ 1 then 0 else 1
  procs p := if p = 1 then soloPc n else .idle

theorem solo_set (s : State) (x : Pc) (h : ∀ p, p ≠ 1 → s.procs p = .idle) :
    s.set 1 x = { s with procs := fun p => if p = 1 then x else .idle } := by
  unfold State.set
  congr 1
  funext p
  by_cases hp : p = 1
  · simp [hp]
  · simp [hp, h p hp]

theorem solo_zero : soloState 0 = .init := by
  unfold soloState State.init
  congr 1
  funext p
  by_cases hp : p = 1
  · simp [hp, soloPc]
  · simp [hp]

theorem solo_run : Endless (step 1800) soloState soloEvent := by
  intro n
  have hothers : ∀ p, p ≠ 1 → (soloState n).procs p = .idle := fun p hp => if_neg hp
  match n with
  | 0 => exact congrArg some (solo_set _ _ hothers)
  | 1 => exact congrArg some (solo_set _ _ hothers)
  | 2 => exact congrArg some (solo_set _ _ hothers)
  | n + 3 => rfl

theorem solo_fair : Fair soloState soloEvent := by
  intro p n hb
  by_cases hp : p = 1
  · subst hp
    match n with
    | 0 => simp [soloState, soloPc, Pc.busy] at hb
    | 1 => exact ⟨1, Nat.le_refl _, .inl rfl⟩
    | 2 => exact ⟨2, Nat.le_refl _, .inl rfl⟩
    | n + 3 => simp [soloState, soloPc, Pc.busy] at hb
  · simp [soloState, hp, Pc.busy] at hb

theorem solo_careful (n : Nat) : Careful 1800 (soloState n) (soloEvent n) := by
  match n with
  | 0 => exact True.intro
  | 1 => exact True.intro
  | 2 => exact ⟨Nat.zero_le _, fun d hd => by cases hd; rfl⟩
  | n + 3 => exact True.intro

end Docich.FileLock
