import Mathlib.Tactic.Common

/-!
# The mkdir lock of the dispatch lanes

- `Dir`, `Owner`: the directory that is the lock, and the file in it that says whose it is;
- `Pc`: where a process stands in `FileLock.acquire`, `FileLock._reap_stale` or `FileLock.release`;
- `step`: one file-system step of one process, a call, a death, or time that passes;
- `Careful`: the steps after which no directory is touched that another process has made since;
- `Inv`, `exclusive`: **in careful runs, of two holders one has held the lock for longer than `stale_sec`**.

The path is used by nobody else, so it is a directory or nothing. The three lines of the owner file are a record: the
label has one line, so the first `pid=` line is the second of the file, and the text `token=…` is its first.
Directories are numbered as they are made. The code does not see these numbers.
-/

namespace Docich.FileLock

open Option

/-! ## The lock -/

/-- `f"{os.getpid()}:{time.time_ns()}"`. -/
structure Token where
  pid : Nat
  stamp : Nat
deriving DecidableEq

structure Owner where
  token : Token
  pid : Nat
deriving DecidableEq

/-- The directory at the path: its number, the time of its last change, and the owner file when it is there. -/
structure Dir where
  number : Nat
  mtime : Nat
  owner : Option Owner
deriving DecidableEq

/-- A call of `acquire`: the token of the lock object, `max_wait_sec`, `deadline`, and when it started. -/
structure Attempt where
  token : Token
  maxWait : Nat
  deadline : Option Nat
  started : Nat
deriving DecidableEq

/-! ## Processes -/

/-- Where a process stands. What it has read stands beside it; `number` and `made` are read by no step. -/
inductive Pc where
  | idle
  | dead
  /-- before `self.path.mkdir()` -/
  | making (a : Attempt)
  /-- before `owner.write_text(…)`, in the directory with that number, made at that time -/
  | writing (a : Attempt) (number made : Nat)
  /-- before `self.path.stat()` -/
  | statting (a : Attempt)
  /-- before `time.time()` -/
  | timing (a : Attempt) (number mtime : Nat)
  /-- before the owner file is read -/
  | reading (a : Attempt) (number mtime : Nat) (old : Bool)
  /-- before `os.kill(pid, 0)` -/
  | probing (a : Attempt) (seen : Dir) (old : Bool)
  /-- before `shutil.rmtree` of `_reap_stale` -/
  | removing (a : Attempt) (seen : Dir)
  /-- before the look at the clock that ends or repeats the loop -/
  | checking (a : Attempt)
  /-- `acquire` has returned, `release` was not called -/
  | holding (a : Attempt) (number since : Nat)
  /-- before `release` reads the owner file -/
  | releasing (a : Attempt) (number : Nat)
  /-- before `shutil.rmtree` of `release` -/
  | deleting (a : Attempt) (number : Nat)
deriving DecidableEq

/-- The directory that the process has made and not yet given up. -/
def Pc.number : Pc → Option Nat
  | .writing _ n _ | .holding _ n _ | .releasing _ n | .deleting _ n => some n
  | _ => none

/-- The process waits for nobody's call: its next step is its own. -/
def Pc.busy : Pc → Bool
  | .idle | .dead | .holding _ _ _ => false
  | _ => true

structure State where
  now : Nat
  dir : Option Dir
  next : Nat
  procs : Nat → Pc

namespace State

/-- The path is free, and nobody has started. -/
def init : State := ⟨0, none, 0, fun _ => .idle⟩

def set (s : State) (p : Nat) (x : Pc) : State := { s with procs := Function.update s.procs p x }

@[simp] theorem set_now (s : State) (p : Nat) (x : Pc) : (s.set p x).now = s.now := rfl

@[simp] theorem set_self (s : State) (p : Nat) (x : Pc) : (s.set p x).procs p = x := by simp [set]

theorem set_ne (s : State) {p q : Nat} (x : Pc) (h : q ≠ p) : (s.set p x).procs q = s.procs q := by simp [set, h]

end State

/-! ## Steps -/

/-- `os.kill(pid, 0)` raises `ProcessLookupError`. -/
def ownerDead (s : State) (o : Option Owner) : Bool := o.any fun o => s.procs o.pid = .dead

/-- `owner.write_text`: a new file changes the time of its directory, an old one is overwritten. -/
def Dir.write (d : Dir) (now : Nat) (o : Owner) : Dir :=
  { d with owner := some o, mtime := if d.owner = none then now else d.mtime }

/-- `LockTimeout` after an attempt. -/
def Attempt.over (a : Attempt) (now : Nat) : Bool :=
  (a.maxWait ≠ 0 && a.maxWait ≤ now - a.started) || a.deadline.any (· ≤ now)

/-- The next file-system step of a process. -/
def move (stale : Nat) (s : State) (p : Nat) : Option State :=
  match s.procs p with
  | .making a =>
    match s.dir with
    | none => some ({ s with dir := some ⟨s.next, s.now, none⟩, next := s.next + 1 }.set p (.writing a s.next s.now))
    | some _ => some (s.set p (.statting a))
  | .writing a n _ =>
    match s.dir with
    -- `FileNotFoundError` from `write_text`
    | none => some (s.set p .idle)
    | some d => some ({ s with dir := some (d.write s.now ⟨a.token, p⟩) }.set p (.holding a n s.now))
  | .statting a =>
    match s.dir with
    | none => some (s.set p (.checking a))
    | some d => some (s.set p (.timing a d.number d.mtime))
  | .timing a n m => some (s.set p (.reading a n m (stale < s.now - m)))
  | .reading a n m old => some (s.set p (.probing a ⟨n, m, s.dir.bind Dir.owner⟩ old))
  | .probing a seen old =>
    some (s.set p (if ownerDead s seen.owner || old then .removing a seen else .checking a))
  | .removing a _ => some ({ s with dir := none }.set p (.checking a))
  | .checking a => some (s.set p (if a.over s.now then .idle else .making a))
  | .releasing a n =>
    some (s.set p (if (s.dir.bind Dir.owner).any (·.token = a.token) then .deleting a n else .idle))
  | .deleting _ _ => some ({ s with dir := none }.set p .idle)
  | .idle | .dead | .holding _ _ _ => none

inductive Event where
  | tick (n : Nat)
  | acquire (p stamp maxWait : Nat) (deadline : Option Nat)
  | move (p : Nat)
  | release (p : Nat)
  | die (p : Nat)
deriving DecidableEq

/-- One event. The pid of a process is its number, and is not used again. -/
def step (stale : Nat) (s : State) : Event → Option State
  | .tick n => some { s with now := s.now + n }
  | .acquire p stamp maxWait deadline =>
    match s.procs p with
    | .idle => some (s.set p (.making ⟨⟨p, stamp⟩, maxWait, deadline, s.now⟩))
    | _ => none
  | .move p => move stale s p
  | .release p =>
    match s.procs p with
    | .holding a n _ => some (s.set p (.releasing a n))
    | _ => none
  | .die p => if s.procs p = .dead then none else some (s.set p .dead)

/-- Some events, one after the other. -/
def run (stale : Nat) : State → List Event → Option State
  | s, [] => some s
  | s, e :: es => (step stale s e).bind fun s => run stale s es

/-- Two processes hold the lock only while one of them has held it for longer than `stale`. -/
def Exclusive (stale : Nat) (s : State) : Prop :=
  ∀ p q a b m n t u, s.procs p = .holding a m t → s.procs q = .holding b n u → p ≠ q →
    t + stale < s.now ∨ u + stale < s.now

/-! ## Careful steps -/

/-- The owner file is written in time, and into the directory that was made for it; a directory is removed by
`_reap_stale` only as it was found, and by `release` only when the process has made it. -/
def Careful (stale : Nat) (s : State) : Event → Prop
  | .move p =>
    match s.procs p with
    | .writing _ n made => s.now ≤ made + stale ∧ ∀ d, s.dir = some d → d.number = n
    | .removing _ seen => ∀ d, s.dir = some d → d = seen
    | .deleting _ n => ∀ d, s.dir = some d → d.number = n
    | _ => True
  | _ => True

/-- The reason for which a process goes on to remove what it has found. -/
def Justified (stale : Nat) (s : State) (seen : Dir) : Prop :=
  seen.mtime + stale < s.now ∨ ownerDead s seen.owner = true

/-- What holds in careful runs. -/
structure Inv (stale : Nat) (s : State) : Prop where
  numbered : ∀ d, s.dir = some d → d.number < s.next
  below : ∀ p n, (s.procs p).number = some n → n < s.next
  unique : ∀ p q n, (s.procs p).number = some n → (s.procs q).number = some n → p = q
  writing : ∀ p a n t, s.procs p = .writing a n t → t + stale < s.now ∨ s.dir = some ⟨n, t, none⟩
  holding : ∀ p a n t, s.procs p = .holding a n t → t + stale < s.now ∨ s.dir = some ⟨n, t, some ⟨a.token, p⟩⟩
  reading : ∀ p a n m, s.procs p = .reading a n m true → m + stale < s.now
  probing : ∀ p a seen, s.procs p = .probing a seen true → seen.mtime + stale < s.now
  removing : ∀ p a seen, s.procs p = .removing a seen → Justified stale s seen

/-! ## Careful steps keep the invariant -/

variable {stale : Nat} {s s' : State} {p : Nat}

theorem ownerDead_mono {o : Option Owner} (h : ownerDead s o = true)
    (hdead : ∀ q, s.procs q = .dead → s'.procs q = .dead) : ownerDead s' o = true := by
  cases o with
  | none => cases h
  | some o => simpa [ownerDead] using hdead o.pid (by simpa [ownerDead] using h)

theorem Justified.mono {seen : Dir} (h : Justified stale s seen) (hnow : s.now ≤ s'.now)
    (hdead : ∀ q, s.procs q = .dead → s'.procs q = .dead) : Justified stale s' seen := by
  rcases h with h | h
  · exact .inl (by omega)
  · exact .inr (ownerDead_mono h hdead)

/-- What a process may be after its step, apart from what it knows of the directory. -/
structure Fits (stale : Nat) (s : State) (p : Nat) : Prop where
  writing : ∀ a n t, s.procs p = .writing a n t → t + stale < s.now ∨ s.dir = some ⟨n, t, none⟩
  holding : ∀ a n t, s.procs p = .holding a n t → t + stale < s.now ∨ s.dir = some ⟨n, t, some ⟨a.token, p⟩⟩
  reading : ∀ a n m, s.procs p = .reading a n m true → m + stale < s.now
  probing : ∀ a seen, s.procs p = .probing a seen true → seen.mtime + stale < s.now
  removing : ∀ a seen, s.procs p = .removing a seen → Justified stale s seen

/-- Process `p` moved: enough to look at it, and at what the others know of the directory. -/
theorem Inv.moved (h : Inv stale s) (hnow : s.now ≤ s'.now) (hnext : s.next ≤ s'.next) (hp : s.procs p ≠ .dead)
    (hothers : ∀ q, q ≠ p → s'.procs q = s.procs q) (hnumbered : ∀ d, s'.dir = some d → d.number < s'.next)
    (hnumber : ∀ n, (s'.procs p).number = some n → (s.procs p).number = some n ∨ n = s.next ∧ s.next < s'.next)
    (hdir : ∀ q n m o, q ≠ p → (s.procs q).number = some n → (∀ x ∈ o, x.pid = q) → s.dir = some ⟨n, m, o⟩ →
      m + stale < s'.now ∨ s'.dir = some ⟨n, m, o⟩)
    (hown : Fits stale s' p) : Inv stale s' := by
  have hdead : ∀ q, s.procs q = .dead → s'.procs q = .dead := by
    intro q hq
    rw [hothers q (fun e => hp (e ▸ hq)), hq]
  have hold : ∀ q n, (s'.procs q).number = some n → (s.procs q).number = some n ∨ q = p ∧ n = s.next ∧ s.next < s'.next := by
    intro q n hn
    by_cases hq : q = p
    · subst hq
      rcases hnumber n hn with h | h
      · exact .inl h
      · exact .inr ⟨rfl, h⟩
    · rw [hothers q hq] at hn
      exact .inl hn
  constructor
  · exact hnumbered
  · intro q n hn
    rcases hold q n hn with hn | ⟨-, rfl, hlt⟩
    · exact Nat.lt_of_lt_of_le (h.below q n hn) hnext
    · exact hlt
  · intro q r n hq hr
    rcases hold q n hq with hq | ⟨hq, hn, -⟩ <;> rcases hold r n hr with hr | ⟨hr, hn', -⟩
    · exact h.unique q r n hq hr
    · exact absurd (h.below q n hq) (by omega)
    · exact absurd (h.below r n hr) (by omega)
    · rw [hq, hr]
  · intro q a n t hq
    by_cases he : q = p
    · subst he
      exact hown.writing a n t hq
    · rw [hothers q he] at hq
      rcases h.writing q a n t hq with hlate | hd
      · exact .inl (by omega)
      · exact hdir q n t none he (by rw [hq]; rfl) (by simp) hd
  · intro q a n t hq
    by_cases he : q = p
    · subst he
      exact hown.holding a n t hq
    · rw [hothers q he] at hq
      rcases h.holding q a n t hq with hlate | hd
      · exact .inl (by omega)
      · exact hdir q n t _ he (by rw [hq]; rfl) (by simp) hd
  · intro q a n m hq
    by_cases he : q = p
    · subst he
      exact hown.reading a n m hq
    · rw [hothers q he] at hq
      have := h.reading q a n m hq
      omega
  · intro q a seen hq
    by_cases he : q = p
    · subst he
      exact hown.probing a seen hq
    · rw [hothers q he] at hq
      have := h.probing q a seen hq
      omega
  · intro q a seen hq
    by_cases he : q = p
    · subst he
      exact hown.removing a seen hq
    · rw [hothers q he] at hq
      exact (h.removing q a seen hq).mono hnow hdead

/-- A process moved on, and the directory is as it was. -/
theorem Inv.set {x : Pc} (h : Inv stale s) (hp : s.procs p ≠ .dead)
    (hnumber : ∀ n, x.number = some n → (s.procs p).number = some n) (hown : Fits stale (s.set p x) p) :
    Inv stale (s.set p x) :=
  h.moved (Nat.le_refl _) (Nat.le_refl _) hp (fun q hq => s.set_ne x hq) h.numbered
    (fun n hn => .inl (hnumber n (by simpa using hn))) (fun _ _ _ _ _ _ _ hd => .inr hd) hown

/-- A directory that nobody relies on is gone. -/
theorem Inv.removed {x : Pc} (h : Inv stale s) (hp : s.procs p ≠ .dead) (hx : x.number = none)
    (hgone : ∀ q n m o, q ≠ p → (s.procs q).number = some n → (∀ y ∈ o, y.pid = q) → s.dir = some ⟨n, m, o⟩ →
      m + stale < s.now) (hown : Fits stale ({ s with dir := none }.set p x) p) :
    Inv stale ({ s with dir := none }.set p x) := by
  refine h.moved (p := p) (Nat.le_refl _) (Nat.le_refl _) hp (fun q hq => by rw [State.set_ne _ _ hq])
    (fun d hd => by cases hd) (fun n hn => ?_) (fun q n m o hq hn ho hd => .inl (hgone q n m o hq hn ho hd)) hown
  rw [State.set_self, hx] at hn
  cases hn

/-- A process that stands nowhere in particular. -/
theorem fits_plain {x : Pc} (h : ∀ a n t, x ≠ .writing a n t ∧ x ≠ .holding a n t) (hr : ∀ a n m, x ≠ .reading a n m true)
    (hb : ∀ a seen, x ≠ .probing a seen true ∧ x ≠ .removing a seen) : Fits stale (s.set p x) p := by
  constructor <;> simp only [State.set_self]
  · exact fun a n t e => absurd e (h a n t).1
  · exact fun a n t e => absurd e (h a n t).2
  · exact fun a n m e => absurd e (hr a n m)
  · exact fun a seen e => absurd e (hb a seen).1
  · exact fun a seen e => absurd e (hb a seen).2

/-- **A careful step of a process keeps the invariant.** -/
theorem Inv.move (h : Inv stale s) (hc : Careful stale s (.move p)) (hs : move stale s p = some s') : Inv stale s' := by
  unfold FileLock.move at hs
  unfold Careful at hc
  cases hx : s.procs p with
  | idle => simp [hx] at hs
  | dead => simp [hx] at hs
  | holding a n t => simp [hx] at hs
  | making a =>
    have hp : s.procs p ≠ .dead := by simp [hx]
    simp only [hx] at hs
    cases hd : s.dir with
    | none =>
      simp only [hd, some.injEq] at hs
      subst hs
      refine h.moved (Nat.le_refl _) (Nat.le_succ _) hp (fun q hq => by rw [State.set_ne _ _ hq]) ?_ ?_ ?_ ?_
      · intro d hd
        cases hd
        exact Nat.lt_succ_self _
      · intro n hn
        simp only [State.set_self, Pc.number, some.injEq] at hn
        exact .inr ⟨hn.symm, Nat.lt_succ_self _⟩
      · intro q n m o _ _ _ hd'
        rw [hd] at hd'
        cases hd'
      · constructor <;> simp only [State.set_self, Pc.writing.injEq, reduceCtorEq, IsEmpty.forall_iff, implies_true]
        rintro a' n t ⟨-, rfl, rfl⟩
        exact .inr rfl
    | some d =>
      simp only [hd, some.injEq] at hs
      subst hs
      exact h.set hp (by simp [Pc.number]) (fits_plain (by simp) (by simp) (by simp))
  | writing a n made =>
    have hp : s.procs p ≠ .dead := by simp [hx]
    simp only [hx] at hs hc
    obtain ⟨htime, hmine⟩ := hc
    cases hd : s.dir with
    | none =>
      simp only [hd, some.injEq] at hs
      subst hs
      exact h.set hp (by simp [Pc.number]) (fits_plain (by simp) (by simp) (by simp))
    | some d =>
      simp only [hd, some.injEq] at hs
      subst hs
      -- in time, so the directory is as it was made
      have hown : s.dir = some ⟨n, made, none⟩ := by
        rcases h.writing p a n made hx with hlate | hown
        · omega
        · exact hown
      rw [hd, some.injEq] at hown
      subst hown
      refine h.moved (Nat.le_refl _) (Nat.le_refl _) hp (fun q hq => by rw [State.set_ne _ _ hq]) ?_ ?_ ?_ ?_
      · intro d' hd'
        cases hd'
        show n < s.next
        exact h.numbered _ hd
      · intro m hm
        rw [State.set_self] at hm
        exact .inl (by rw [hx]; exact hm)
      · intro q m t o hq hm _ hd'
        rw [hd, some.injEq, Dir.mk.injEq] at hd'
        obtain ⟨rfl, -⟩ := hd'
        exact absurd (h.unique q p n hm (by rw [hx]; rfl)) hq
      · constructor <;> simp only [State.set_self, Pc.holding.injEq, reduceCtorEq, IsEmpty.forall_iff, implies_true]
        rintro a' n' t ⟨rfl, rfl, rfl⟩
        exact .inr rfl
  | statting a =>
    have hp : s.procs p ≠ .dead := by simp [hx]
    simp only [hx] at hs
    cases hd : s.dir with
    | none =>
      simp only [hd, some.injEq] at hs
      subst hs
      exact h.set hp (by simp [Pc.number]) (fits_plain (by simp) (by simp) (by simp))
    | some d =>
      simp only [hd, some.injEq] at hs
      subst hs
      exact h.set hp (by simp [Pc.number]) (fits_plain (by simp) (by simp) (by simp))
  | timing a n m =>
    have hp : s.procs p ≠ .dead := by simp [hx]
    simp only [hx, some.injEq] at hs
    subst hs
    refine h.set hp (by simp [Pc.number]) ?_
    constructor <;> simp only [State.set_self, Pc.reading.injEq, reduceCtorEq, IsEmpty.forall_iff, implies_true]
    rintro a' n' m' ⟨-, -, rfl, hold⟩
    have := of_decide_eq_true hold
    simp only [State.set_now]
    omega
  | reading a n m old =>
    have hp : s.procs p ≠ .dead := by simp [hx]
    simp only [hx, some.injEq] at hs
    subst hs
    refine h.set hp (by simp [Pc.number]) ?_
    constructor <;> simp only [State.set_self, Pc.probing.injEq, reduceCtorEq, IsEmpty.forall_iff, implies_true]
    rintro a' seen ⟨-, rfl, rfl⟩
    exact h.reading p a n m hx
  | probing a seen old =>
    have hp : s.procs p ≠ .dead := by simp [hx]
    simp only [hx, some.injEq] at hs
    subst hs
    have hset : ∀ x, ownerDead s seen.owner = true → ownerDead (s.set p x) seen.owner = true := by
      refine fun x hdead => ownerDead_mono hdead fun q hq => ?_
      have hne : q ≠ p := by
        rintro rfl
        exact hp hq
      rw [State.set_ne _ _ hne, hq]
    by_cases hgo : (ownerDead s seen.owner || old) = true
    · rw [if_pos hgo]
      refine h.set hp (by simp [Pc.number]) ?_
      constructor <;> simp only [State.set_self, Pc.removing.injEq, reduceCtorEq, IsEmpty.forall_iff, implies_true]
      rintro a' seen' ⟨-, rfl⟩
      rcases (Bool.or_eq_true _ _).mp hgo with hdead | rfl
      · exact .inr (hset _ hdead)
      · exact .inl (h.probing p a seen hx)
    · rw [if_neg hgo]
      exact h.set hp (by simp [Pc.number]) (fits_plain (by simp) (by simp) (by simp))
  | removing a seen =>
    have hp : s.procs p ≠ .dead := by simp [hx]
    simp only [hx, some.injEq] at hs hc
    subst hs
    refine h.removed hp rfl (fun q n m o hq hn ho hd => ?_) ?_
    · obtain rfl := hc _ hd
      rcases h.removing p a _ hx with hlate | hdead
      · exact hlate
      · -- the owner of that directory is dead, and has none of its own any more
        cases o with
        | none => cases hdead
        | some o =>
          have hpid := ho o rfl
          have hdead : s.procs o.pid = .dead := by simpa [ownerDead] using hdead
          rw [← hpid, hdead] at hn
          cases hn
    · exact fits_plain (s := { s with dir := none }) (by simp) (by simp) (by simp)
  | checking a =>
    have hp : s.procs p ≠ .dead := by simp [hx]
    simp only [hx, some.injEq] at hs
    subst hs
    by_cases hover : a.over s.now = true
    · rw [if_pos hover]
      exact h.set hp (by simp [Pc.number]) (fits_plain (by simp) (by simp) (by simp))
    · rw [if_neg hover]
      exact h.set hp (by simp [Pc.number]) (fits_plain (by simp) (by simp) (by simp))
  | releasing a n =>
    have hp : s.procs p ≠ .dead := by simp [hx]
    simp only [hx, some.injEq] at hs
    subst hs
    by_cases htoken : (s.dir.bind Dir.owner).any (·.token = a.token) = true
    · rw [if_pos htoken]
      exact h.set hp (by simp [Pc.number, hx]) (fits_plain (by simp) (by simp) (by simp))
    · rw [if_neg htoken]
      exact h.set hp (by simp [Pc.number]) (fits_plain (by simp) (by simp) (by simp))
  | deleting a n =>
    have hp : s.procs p ≠ .dead := by simp [hx]
    simp only [hx, some.injEq] at hs hc
    subst hs
    refine h.removed hp rfl (fun q m t o hq hm ho hd => ?_) ?_
    · have hn : m = n := hc _ hd
      exact absurd (h.unique q p n (hn ▸ hm) (by rw [hx]; rfl)) hq
    · exact fits_plain (s := { s with dir := none }) (by simp) (by simp) (by simp)

/-- **A careful step keeps the invariant.** -/
theorem Inv.step {e : Event} (h : Inv stale s) (hc : Careful stale s e) (hs : step stale s e = some s') :
    Inv stale s' := by
  cases e with
  | move p => exact h.move hc hs
  | tick n =>
    simp only [FileLock.step, some.injEq] at hs
    subst hs
    have hnow : s.now ≤ s.now + n := Nat.le_add_right _ _
    constructor
    · exact h.numbered
    · exact h.below
    · exact h.unique
    · exact fun p a m t hp => (h.writing p a m t hp).imp_left fun hlate => Nat.lt_of_lt_of_le hlate hnow
    · exact fun p a m t hp => (h.holding p a m t hp).imp_left fun hlate => Nat.lt_of_lt_of_le hlate hnow
    · exact fun p a m t hp => Nat.lt_of_lt_of_le (h.reading p a m t hp) hnow
    · exact fun p a seen hp => Nat.lt_of_lt_of_le (h.probing p a seen hp) hnow
    · exact fun p a seen hp => (h.removing p a seen hp).mono hnow fun _ hq => hq
  | acquire p stamp maxWait deadline =>
    simp only [FileLock.step] at hs
    split at hs
    · next hidle =>
      cases hs
      exact h.set (by simp [hidle]) (by simp [Pc.number]) (fits_plain (by simp) (by simp) (by simp))
    · cases hs
  | release p =>
    simp only [FileLock.step] at hs
    split at hs
    · next a n t hheld =>
      cases hs
      exact h.set (by simp [hheld]) (by simp [Pc.number, hheld]) (fits_plain (by simp) (by simp) (by simp))
    · cases hs
  | die p =>
    simp only [FileLock.step] at hs
    split at hs
    · cases hs
    · next halive =>
      cases hs
      exact h.set halive (by simp [Pc.number]) (fits_plain (by simp) (by simp) (by simp))

theorem inv_init : Inv stale State.init where
  numbered d hd := by cases hd
  below p n hn := by cases hn
  unique p q n hn := by cases hn
  writing p a n t hp := by cases hp
  holding p a n t hp := by cases hp
  reading p a n m hp := by cases hp
  probing p a seen hp := by cases hp
  removing p a seen hp := by cases hp

/-- Two holders in time would both be the owner of the one directory. -/
theorem Inv.exclusive (h : Inv stale s) : Exclusive stale s := by
  intro p q a b m n t u hp hq hne
  rcases h.holding p a m t hp with hlate | hd
  · exact .inl hlate
  · rcases h.holding q b n u hq with hlate | hd'
    · exact .inr hlate
    · rw [hd, some.injEq, Dir.mk.injEq, some.injEq, Owner.mk.injEq] at hd'
      exact absurd hd'.2.2.2 hne

/-- Every step of a run is careful. -/
def CarefulRun (stale : Nat) : State → List Event → Prop
  | _, [] => True
  | s, e :: es => Careful stale s e ∧ ∀ s', step stale s e = some s' → CarefulRun stale s' es

theorem Inv.run {es : List Event} (h : Inv stale s) (hc : CarefulRun stale s es) (hs : run stale s es = some s') :
    Inv stale s' := by
  induction es generalizing s with
  | nil =>
    cases hs
    exact h
  | cons e es ih =>
    obtain ⟨s₁, hs₁, hs⟩ := bind_eq_some_iff.mp hs
    exact ih (h.step hc.1 hs₁) (hc.2 s₁ hs₁) hs

/-! ## Without care -/

/-- Process 0 dies with the lock. Processes 1 and 2 both find that out; 1 removes the directory and takes the lock, then
2 removes what it has not looked at, and takes the lock as well. -/
def twoReapers : List Event :=
  [.acquire 0 0 0 none, .move 0, .move 0, .die 0,
    .acquire 1 0 0 none, .move 1, .move 1, .move 1, .move 1, .move 1,
    .acquire 2 0 0 none, .move 2, .move 2, .move 2, .move 2, .move 2,
    .move 1, .move 1, .move 1, .move 1,
    .move 2, .move 2, .move 2, .move 2]

/-- The two holders of that run, and the time. -/
theorem twoReapers_holding : (run 1800 .init twoReapers).map (fun s => (s.procs 1, s.procs 2, s.now)) =
    some (.holding ⟨⟨1, 0⟩, 0, none, 0⟩ 1 0, .holding ⟨⟨2, 0⟩, 0, none, 0⟩ 2 0, 0) := by
  decide

end Docich.FileLock
