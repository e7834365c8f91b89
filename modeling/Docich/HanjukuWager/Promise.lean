import Docich.HanjukuWager.Tick

/-!
# A wager is opened once and settled by the truth

- `Kept`: what is promised of the ledger and of what the API was asked;
- `Careful`: the steps after which no round is canceled whose resume target is reached;
- `Onward`: what the rest of the program may do meanwhile, and `Sound`, what a tick knows of its memory;
- `Does`: what a part of a tick does, and `does_*`, what its calls do.
-/

namespace Docich.HanjukuWager

open Durable.Locks Option Function
open Durable.Locks.Work (throw get modify ask ofExcept handle locking)
open Predictions (Text isText)
open Wire (Json)

/-! ## What is promised -/

/-- The target of a resumed run is reached. -/
def Round.Reached (row : Round) (cleared : Option ℕ) : Prop :=
  row.kind = .resume ∧ ∃ n, cleared = some n ∧ row.target ≤ n

/-- The stored result decides the outcome. -/
def Round.Gives (row : Round) (index : ℕ) : Prop :=
  ∃ result, row.result = some result ∧ resolveIndex row result = .ok (some index)

/-- A call of `end` that respects the wager. -/
structure Ending.Faithful (e : Ending) : Prop where
  owned : ∃ row remote, e.stored = some row ∧ remote ∈ e.listed ∧ isOf row remote = true ∧ remote.id = e.id
  truth : e.status = .RESOLVED → ∃ row index, e.stored = some row ∧ (∃ o, e.outcome = some o ∧
    row.outcome_ids[index]? = some o) ∧ (row.Gives index ∨ index = 0 ∧ row.Reached e.cleared)
  refund : e.status = .CANCELED → (∃ snapshot, e.snapshot = some snapshot ∧ noContest snapshot = true) ∨
    ∀ row, e.stored = some row → (∀ index, ¬ row.Gives index) ∧ ¬ row.Reached e.cleared

/-- After a call of `create` that was not definitively rejected there is none for the same run, and each is for the
stored round. -/
def Once (log : List Entry) : Prop :=
  (∀ stored rejected, .created stored rejected ∈ log → stored.isSome = true) ∧
    ∀ later row earlier, log = later ++ .created (some row) false :: earlier → ∀ row' rejected,
      .created (some row') rejected ∈ later → row'.identity ≠ row.identity

/-- What is promised. -/
structure Kept (d : Disk) : Prop where
  loads : ∀ state, d.ledger = some state → ∀ seed, ∃ s, load seed (some state) = .ok s
  once : Once d.log
  faithful : ∀ e, .ended e ∈ d.log → e.Faithful

/-! ## The condition -/

/-- The stored round is a wager on a resumed chapter that is not done. -/
def Disk.Waiting (d : Disk) (row : Round) : Prop := d.stored = some row ∧ row.status.done = false ∧ row.kind = .resume

/-- No tick finds another run ready when the target of its round is reached and no result is stored; and a target is
reached only while its run is canonical and has not ended. -/
def Careful : (q : Ask) → Disk → q.Answer → Prop
  | .canonical, d, .ok c => ∀ row, d.Waiting row → row.result = none → c.ready = true →
      c.active ≠ some row.identity → ¬ row.Reached (d.cleared row.identity)
  | .change (.progress i n), d, _ => ∀ row, d.Waiting row → row.identity = i → row.target ≤ n →
      row.Reached (d.cleared i) ∨ d.canonical.active = some i ∧ i ∉ d.finished
  | _, _, _ => True

/-- What may happen; the lock is only tried. -/
def world (str : Json → Text) : World Lock Ask Ask.Answer Disk where
  perform := perform str
  tried := fun _ => true

/-- The same, by steps that meet the condition. -/
def careful (str : Json → Text) : World Lock Ask Ask.Answer Disk where
  perform := fun q d x d' => perform str q d x d' ∧ Careful q d x
  tried := fun _ => true

/-- Nothing was wagered yet. -/
structure Disk.Fresh (d : Disk) : Prop where
  ledger : d.ledger = none
  past : d.past = []
  log : d.log = []
  cleared : ∀ i n, d.cleared i = some n → n ≤ MAX_CHAPTER

/-! ## What a tick knows -/

/-- The run is canonical, or was. -/
def Current (d : Disk) (i : Identity) : Prop := d.canonical.active = some i ∨ i ∈ d.past

/-- Each run with a call of `create` that was not rejected is over, or has the round, which says so. -/
def Spent (round : Option Round) (d : Disk) : Prop :=
  ∀ row, .created (some row) false ∈ d.log →
    row.identity ∈ d.past ∨ ∃ r, round = some r ∧ r.identity = row.identity ∧ r.attempted = true

structure RoundOk (round : Option Round) (d : Disk) : Prop where
  current : ∀ row, round = some row → Current d row.identity
  finished : ∀ row, round = some row → row.result.isSome = true → row.identity ∈ d.finished
  spent : Spent round d

/-- The memory of a tick may be saved. -/
structure Sound (s : State) (d : Disk) : Prop where
  accepted : checkState s = true
  round : RoundOk s.round d

/-- What holds at all times. -/
structure Known (d : Disk) : Prop where
  once : Once d.log
  faithful : ∀ e, .ended e ∈ d.log → e.Faithful
  accepted : ∀ state, d.ledger = some state → checkState state = true
  round : RoundOk d.stored d
  created : ∀ row rejected, .created (some row) rejected ∈ d.log → Current d row.identity
  fresh : ∀ i, d.canonical.active = some i → i ∉ d.past
  cleared : ∀ i n, d.cleared i = some n → n ≤ MAX_CHAPTER

/-- What the rest of the program may do, and most steps of a tick. -/
structure Onward (d d' : Disk) : Prop where
  ledger : d'.ledger = d.ledger
  log : d'.log = d.log
  past : ∀ i ∈ d.past, i ∈ d'.past
  finished : ∀ i ∈ d.finished, i ∈ d'.finished
  current : ∀ i, d.canonical.active = some i → Current d' i
  fresh : ∀ i, d'.canonical.active = some i → i ∉ d'.past
  bound : ∀ i n, d'.cleared i = some n → n ≤ MAX_CHAPTER
  cleared : ∀ i n, d.cleared i = some n → ∃ m, d'.cleared i = some m ∧ n ≤ m
  waits : ∀ row, d.Waiting row → row.identity ∈ d.past ∨ row.identity ∈ d.finished →
    row.Reached (d'.cleared row.identity) → row.Reached (d.cleared row.identity)

variable {d d' : Disk}

theorem Onward.stored (h : Onward d d') : d'.stored = d.stored := by
  unfold Disk.stored
  rw [h.ledger]

theorem Onward.Current (h : Onward d d') {i : Identity} (hi : Current d i) : HanjukuWager.Current d' i := by
  rcases hi with ha | hp
  · exact h.current i ha
  · exact .inr (h.past i hp)

theorem Onward.reached (h : Onward d d') {row : Round} (hr : row.Reached (d.cleared row.identity)) :
    row.Reached (d'.cleared row.identity) := by
  obtain ⟨hkind, n, hn, hle⟩ := hr
  obtain ⟨m, hm, hnm⟩ := h.cleared _ _ hn
  exact ⟨hkind, m, hm, hle.trans hnm⟩

theorem RoundOk.onward {round : Option Round} (h : RoundOk round d) (ho : Onward d d') : RoundOk round d' where
  current row hr := ho.Current (h.current row hr)
  finished row hr hs := ho.finished _ (h.finished row hr hs)
  spent row hrow := by
    rw [ho.log] at hrow
    exact (h.spent row hrow).imp_left (ho.past _)

theorem Sound.onward {s : State} (h : Sound s d) (ho : Onward d d') : Sound s d' :=
  ⟨h.accepted, h.round.onward ho⟩

/-- The memory may be saved as long as the API, the canonical run and the ends of runs are the same. -/
theorem Sound.congr {s : State} (h : Sound s d) (hc : d'.canonical = d.canonical) (hp : d'.past = d.past)
    (ho : d'.finished = d.finished) (hl : d'.log = d.log) : Sound s d' := by
  refine ⟨h.accepted, fun row hr => ?_, fun row hr hs => ?_, fun row hrow => ?_⟩
  · unfold Current
    rw [hc, hp]
    exact h.round.current row hr
  · rw [ho]
    exact h.round.finished row hr hs
  · rw [hp]
    exact h.round.spent row (hl ▸ hrow)

theorem Known.onward (h : Known d) (ho : Onward d d') : Known d' where
  once := by
    rw [ho.log]
    exact h.once
  faithful := by
    rw [ho.log]
    exact h.faithful
  accepted := by
    rw [ho.ledger]
    exact h.accepted
  round := by
    rw [ho.stored]
    exact h.round.onward ho
  created := by
    rw [ho.log]
    exact fun row rejected hrow => ho.Current (h.created row rejected hrow)
  fresh := ho.fresh
  cleared := ho.bound

/-- A step that leaves what matters as it is. -/
theorem Known.same (h : Known d) (hl : d'.ledger = d.ledger) (hlog : d'.log = d.log)
    (hc : d'.canonical = d.canonical) (hp : d'.past = d.past) (hcl : d'.cleared = d.cleared)
    (ho : ∀ i ∈ d.finished, i ∈ d'.finished) : Onward d d' where
  ledger := hl
  log := hlog
  past := by simp [hp]
  finished := ho
  current i hi := .inl (hc ▸ hi)
  fresh := by
    rw [hc, hp]
    exact h.fresh
  bound := by
    rw [hcl]
    exact h.cleared
  cleared i n hn := ⟨n, hcl ▸ hn, le_rfl⟩
  waits row _ _ hr := hcl ▸ hr

theorem Known.refl (h : Known d) : Onward d d := h.same rfl rfl rfl rfl rfl fun _ hi => hi

/-- What the rest of the program does is a step onward. -/
theorem Known.change (h : Known d) {c : Change} (hc : Changes d c d') (hcare : Careful (.change c) d ()) :
    Onward d d' := by
  cases hc with
  | canonical c hpast =>
    have hmem : ∀ i, i ∈ (if c.active = d.canonical.active then d.past else d.canonical.active.toList ++ d.past) ↔
        (c.active ≠ d.canonical.active ∧ d.canonical.active = some i) ∨ i ∈ d.past := by
      intro i
      split
      · simp_all
      · simp_all [mem_toList]
    refine ⟨rfl, rfl, fun i hi => (hmem i).mpr (.inr hi), fun _ hi => hi, fun i hi => ?_, fun i hi hmemi => ?_,
      h.cleared, fun i n hn => ⟨n, hn, le_rfl⟩, fun _ _ _ hr => hr⟩
    · by_cases he : c.active = d.canonical.active
      · exact .inl (he.trans hi)
      · exact .inr ((hmem i).mpr (.inl ⟨he, hi⟩))
    · rcases (hmem i).mp hmemi with ⟨hne, ha⟩ | hp
      · exact hne (hi.trans ha.symm)
      · exact hpast i hi hp
  | progress i n hn hle =>
    have hcase : ∀ j, update d.cleared i (some n) j = if j = i then some n else d.cleared j := by
      intro j
      by_cases hj : j = i
      · rw [if_pos hj, hj, update_self]
      · rw [if_neg hj, update_of_ne hj]
    refine ⟨rfl, rfl, fun _ hi => hi, fun _ hi => hi, fun _ hi => .inl hi, h.fresh, fun j m hm => ?_,
      fun j m hm => ?_, fun row hw hgone hr => ?_⟩
    · simp only [hcase] at hm
      split at hm
      · obtain rfl := some.inj hm
        exact hn
      · exact h.cleared j m hm
    · simp only [hcase]
      split
      · next hj => exact ⟨n, rfl, hle m (hj ▸ hm)⟩
      · exact ⟨m, hm, le_rfl⟩
    · simp only [hcase] at hr
      split at hr
      · next hj =>
        obtain ⟨-, m, hm, hle⟩ := hr
        obtain rfl := some.inj hm
        rcases hcare row hw hj hle with hreached | ⟨ha, hover⟩
        · exact hj ▸ hreached
        · rcases hgone with hp | ho
          · exact absurd (hj ▸ hp) (h.fresh i ha)
          · exact absurd (hj ▸ ho) hover
      · exact hr
  | remove_result i => exact h.same rfl rfl rfl rfl rfl fun _ hi => hi
  | leaderboard rounds => exact h.same rfl rfl rfl rfl rfl fun _ hi => hi

/-! ## What the parts of a tick keep -/

/-- The rest of the program: nothing, or a change that meets the condition. -/
def Env (d d' : Disk) : Prop := d' = d ∨ ∃ c, Changes d c d' ∧ Careful (.change c) d ()

/-- A tick under the lock may do what keeps `Known`; the others change nothing of what the lock protects. -/
def contract : Contract Lock Disk where
  step held d d' := Known d' ∧ (held .predictions = false → Env d d')
  known := Known
  kept _ _ _ _ h := h.1

def held : Held Lock := Function.update (fun _ => false) .predictions true

/-- An assertion that steps onward keep. -/
def Loose (P : State → Disk → Prop) : Prop := ∀ s d d', Known d → Onward d d' → P s d → P s d'

/-- An assertion that the rest of the program keeps. -/
def Steady (P : State → Disk → Prop) : Prop :=
  ∀ s d d', Known d → Onward d d' → d'.snapshots = d.snapshots → d'.listed = d.listed → P s d → P s d'

/-- What a part of a tick does, and that its memory may be saved when it raises. -/
abbrev Does {α : Type} (str : Json → Text) (P : State → Disk → Prop) (m : Work α) (R : α → State → Disk → Prop) :
    Prop :=
  Durable.Locks.Triple (careful str) contract held P m R fun _ s d => Sound s d

section Rules

variable {str : Json → Text} {P P' : State → Disk → Prop} {α β : Type} {q : Ask}

theorem Loose.steady (h : Loose P) : Steady P := fun s d d' hk ho _ _ hp => h s d d' hk ho hp

theorem Env.onward {d d' : Disk} (h : Env d d') (hk : Known d) :
    Onward d d' ∧ d'.snapshots = d.snapshots ∧ d'.listed = d.listed := by
  rcases h with rfl | ⟨c, hc, hcare⟩
  · exact ⟨hk.refl, rfl, rfl⟩
  · refine ⟨hk.change hc hcare, ?_⟩
    cases hc <;> exact ⟨rfl, rfl⟩

theorem Steady.stable (h : Steady P) (s : State) : contract.Stable held (P s) := by
  intro h' d d' hapart hk hstep hp
  obtain ⟨ho, hsnap, hlisted⟩ := Env.onward (hstep.2 (hapart .predictions (by simp [held]))) hk
  exact h s d d' hk ho hsnap hlisted hp

theorem loose_sound : Loose Sound := fun _ _ _ _ ho hp => hp.onward ho

theorem Steady.and (h : Steady P) (h' : Steady P') : Steady fun s d => P s d ∧ P' s d :=
  fun s d d' hk ho hs hl hp => ⟨h s d d' hk ho hs hl hp.1, h' s d d' hk ho hs hl hp.2⟩

/-- A call under the lock. -/
theorem does_ask {R : q.Answer → State → Disk → Prop} {X : Exc → State → Disk → Prop} (hP : Steady P)
    (hq : ∀ s d x d', Known d → P s d → perform str q d x d' → Careful q d x → Known d' ∧ R x s d') :
    Durable.Locks.Triple (careful str) contract held P (ask q) R X := by
  refine triple_ask hP.stable fun s d x d' hk hp hx => ?_
  obtain ⟨hk', hr⟩ := hq s d x d' hk hp hx.1 hx.2
  exact ⟨⟨hk', fun hh => by simp [held] at hh⟩, hr⟩

variable {F : q.Answer → Disk → Prop} {R : α → State → Disk → Prop}

/-- A call that is a step onward. -/
theorem does_onward (hP : Loose P)
    (hq : ∀ d x d', Known d → perform str q d x d' → Careful q d x → Onward d d' ∧ F x d') :
    Does str P (ask q) fun x s d => P s d ∧ F x d :=
  does_ask hP.steady fun s d x d' hk hp hx hc =>
    have ho := (hq d x d' hk hx hc).1
    ⟨hk.onward ho, hP s d d' hk ho hp, (hq d x d' hk hx hc).2⟩

/-- A call that only reads. -/
theorem does_read (hP : Steady P)
    (hq : ∀ d x d', Known d → perform str q d x d' → Careful q d x → d' = d ∧ F x d) :
    Does str P (ask q) fun x s d => P s d ∧ F x d :=
  does_ask hP fun s d x d' hk hp hx hc => by
    obtain ⟨rfl, hf⟩ := hq d x d' hk hx hc
    exact ⟨hk, hp, hf⟩

/-- The answer of a call, or its exception. -/
theorem does_ofExcept {x : Except Exc α} (hs : ∀ s d, P s d → Sound s d)
    (hr : ∀ a, x = .ok a → ∀ s d, P s d → R a s d) : Does str P (ofExcept x) R :=
  triple_ofExcept hr fun _ _ => hs

/-- What the assertion says without memory and data. -/
theorem does_given {p : Prop} {m : Work α} (h : ∀ s d, P s d → p)
    (hm : p → Does str P m R) : Does str P m R := fun s d hk hp => hm (h s d hp) s d hk hp

theorem does_throw {e : Exc} (hs : ∀ s d, P s d → Sound s d) :
    Does str P (throw e : Work α) R := triple_throw hs

end Rules

/-! ## Calls -/

section Calls

variable {str : Json → Text} {P : State → Disk → Prop} {i : Identity}

variable (hP : Loose P)

include hP

variable (hs : ∀ s d, P s d → Sound s d)

include hs

theorem does_terminal : Does str P (terminal i) fun e s d =>
    P s d ∧ ∀ v, e = some v → isSha v.frame_sha256 = true ∧ i ∈ d.finished := by
  have hask : Does str P (ask (.terminal i)) fun (x : Except Exc (Option Evidence)) s d =>
      P s d ∧ ∀ v, x = .ok (some v) → isSha v.frame_sha256 = true ∧ i ∈ d.finished := by
    refine does_onward hP fun d x d' hk hx _ => ?_
    rcases hx with ⟨e, rfl, hsha, rfl⟩ | ⟨he, rfl⟩
    · refine ⟨hk.same rfl rfl rfl rfl rfl fun _ hi => List.mem_cons_of_mem _ hi, fun v hv => ?_⟩
      cases hv
      exact ⟨hsha, List.mem_cons_self⟩
    · refine ⟨hk.refl, fun v hv => ?_⟩
      rcases he with rfl | rfl <;> cases hv
  refine triple_bind hask fun x => does_ofExcept (fun s d hp => hs s d hp.1) fun a ha s d hp => ⟨hp.1, fun v hv => ?_⟩
  exact hp.2 v (by rw [ha, hv])

theorem does_readResult :
    Does str P (readResult i) fun _ s d => P s d := by
  have hask : Does str P (ask (.read_result i)) fun _ s d => P s d ∧ True :=
    does_onward hP fun d x d' hk hx _ => ⟨hx.1 ▸ hk.refl, trivial⟩
  exact triple_bind hask fun x => does_ofExcept (fun s d hp => hs s d hp.1) fun a _ s d hp => hp.1

omit hs

omit hP

/-- A write that does not touch what matters. -/
theorem Written.onward {d new d' : Disk} {x : Except Exc Unit} (h : Written d new x d') (hk : Known d)
    (hn : Onward d new) : Onward d d' := by
  rcases h with ⟨rfl, -⟩ | ⟨rfl, -⟩
  · exact hn
  · exact hk.refl

include hs in
include hP in
theorem does_writeResult (r : Result) :
    Does str P (writeResult i r) fun _ s d => P s d := by
  have hask : Does str P (ask (.write_result i r)) fun _ s d => P s d ∧ True :=
    does_onward hP fun d x d' hk hx _ => ⟨hx.onward hk (hk.same rfl rfl rfl rfl rfl fun _ hi => hi), trivial⟩
  exact triple_bind hask fun x => does_ofExcept (fun s d hp => hs s d hp.1) fun a _ s d hp => hp.1

theorem does_completedCount (hP : Steady P) (hs : ∀ s d, P s d → Sound s d) : Does str P (completedCount i) fun c s d =>
    P s d ∧ c = d.cleared i ∧ c.all (· ≤ MAX_CHAPTER) = true := by
  have hask : Does str P (ask (.completed_count i)) fun (x : Except Exc (Option ℕ)) s d =>
      P s d ∧ ∀ c, x = .ok c → c = d.cleared i ∧ c.all (· ≤ MAX_CHAPTER) = true := by
    refine does_read hP fun d x d' hk hx _ => ⟨hx.1, fun c hc => ?_⟩
    rcases hx.2 with he | he <;> rw [he] at hc <;> cases hc
    refine ⟨rfl, ?_⟩
    rw [all_eq_true]
    exact fun n hn => decide_eq_true (hk.cleared i n hn)
  exact triple_bind hask fun x => does_ofExcept (fun s d hp => hs s d hp.1) fun c hc s d hp => ⟨hp.1, hp.2 c hc⟩

include hP

include hs

theorem does_resumePredictionContext :
    Does str P (resumePredictionContext i) fun context s d =>
      P s d ∧ ∀ chapter, context = some (some chapter) → 1 ≤ chapter ∧ chapter ≤ MAX_CHAPTER := by
  have hask : Does str P (ask (.resume_context i)) fun _ s d => P s d ∧ True :=
    does_onward hP fun d x d' hk hx _ => ⟨hx ▸ hk.refl, trivial⟩
  have hcontext (x : Except Exc (Option (Option ℕ))) :
      Does str (fun s d => P s d ∧ True) (ofExcept x) fun _ s d => P s d :=
    does_ofExcept (fun s d hp => hs s d hp.1) fun a _ s d hp => hp.1
  refine triple_bind hask fun x => triple_bind (hcontext x) fun context => ?_
  split
  · next chapter =>
    refine triple_ite (fun hc => triple_pure fun s d hp => ⟨hp, fun c he => ?_⟩) fun _ => does_throw hs
    cases he
    exact hc
  · next hno =>
    refine triple_pure fun s d hp => ⟨hp, fun c he => absurd he (hno c)⟩

theorem does_clientFactory :
    Does str P clientFactory fun _ s d => P s d := by
  have hask : Does str P (ask .client_factory) fun _ s d => P s d ∧ True :=
    does_onward hP fun d x d' hk hx _ => ⟨hx.1 ▸ hk.refl, trivial⟩
  exact triple_bind hask fun x => does_ofExcept (fun s d hp => hs s d hp.1) fun a _ s d hp => hp.1

omit hs

omit hP

theorem does_readCanonical (hP : Steady P) (hs : ∀ s d, P s d → Sound s d) : Does str P readCanonical fun c s d =>
    P s d ∧ Known d ∧ c = d.canonical ∧ Careful .canonical d (.ok c) := by
  have hask : Does str P (ask .canonical) fun (x : Except Exc Canonical) s d =>
      P s d ∧ ∀ c, x = .ok c → Known d ∧ c = d.canonical ∧ Careful .canonical d (.ok c) := by
    refine does_read hP fun d x d' hk hx hcare => ⟨hx.1, fun c hc => ?_⟩
    rcases hx.2 with he | he
    · rw [he] at hc hcare
      cases hc
      exact ⟨hk, rfl, hcare⟩
    · rw [he] at hc
      cases hc
  exact triple_bind hask fun x => does_ofExcept (fun s d hp => hs s d hp.1) fun c hc s d hp => ⟨hp.1, hp.2 c hc⟩

include hP

theorem does_isPaused : Does str P isPaused fun _ s d => P s d := by
  have hask : Does str P (ask Ask.paused) fun _ s d => P s d ∧ True :=
    does_onward hP fun d x d' hk hx _ => ⟨hx ▸ hk.refl, trivial⟩
  exact hask.post (fun _ _ _ hp => hp.1) fun _ _ _ hx => hx

theorem does_tokenHex : Does str P tokenHex fun nonce s d =>
    P s d ∧ nonce.length = 12 ∧ nonce.all isHex = true :=
  does_onward hP fun _ _ _ hk hx _ => ⟨hx.1 ▸ hk.refl, hx.2⟩

include hs in
theorem does_listRows (id : Option Text) :
    Does str P (listRows id) fun rows s d =>
      P s d ∧ d.listed = rows ∧ ∀ row ∈ rows, row.admitted = true := by
  have hask : Does str P (ask (.list id)) fun (x : Except Exc (List Remote)) s d =>
      P s d ∧ ∀ rows, x = .ok rows → d.listed = rows ∧ ∀ row ∈ rows, row.admitted = true := by
    refine does_onward hP fun d x d' hk hx _ => ?_
    obtain ⟨hadmitted, rfl⟩ := hx
    refine ⟨hk.same rfl rfl rfl rfl rfl fun _ hi => hi, fun rows hrows => ?_⟩
    subst hrows
    exact ⟨rfl, hadmitted.2⟩
  exact triple_bind hask fun x => does_ofExcept (fun s d hp => hs s d hp.1) fun c hc s d hp => ⟨hp.1, hp.2 c hc⟩

omit hP

/-- The memory is written to the ledger. -/
theorem does_saveLedger {R : State → Disk → Prop} (hP : Steady P) (hs : ∀ s d, P s d → Sound s d)
    (hR : ∀ s d, Known d → P s d → R s { d with ledger := some s }) : Does str P saveLedger fun _ s d => R s d := by
  refine triple_get fun v => ?_
  have hv : Steady fun s d => s = v ∧ P s d := fun s d d' hk ho hsn hl hp => ⟨hp.1, hP s d d' hk ho hsn hl hp.2⟩
  have hask : Does str (fun s d => s = v ∧ P s d) (ask (.save v)) fun (x : Except Exc Unit) s d =>
      Sound s d ∧ (x = .ok () → R s d) := by
    refine does_ask hv fun s d x d' hk hp hx _ => ?_
    obtain ⟨rfl, hp⟩ := hp
    have hsound := hs s d hp
    have hnew : Known { d with ledger := some s } := by
      refine ⟨hk.once, hk.faithful, fun state he => ?_, ?_, hk.created, hk.fresh, hk.cleared⟩
      · cases he
        exact hsound.accepted
      · exact ⟨hsound.round.current, hsound.round.finished, hsound.round.spent⟩
    rcases hx with ⟨rfl, -⟩ | ⟨rfl, rfl⟩
    · exact ⟨hnew, hsound.congr rfl rfl rfl rfl, fun _ => hR s d hk hp⟩
    · exact ⟨hk, hsound, fun he => by cases he⟩
  exact triple_bind hask fun x => does_ofExcept (fun s d hp => hp.1) fun c hc s d hp => hp.2 hc

end Calls

end Docich.HanjukuWager
