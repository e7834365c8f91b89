import Docich.PuyoProgram.Disk

/-!
# What a run of the corner keeps

- `Shape`: the state files that are written; `Started`, `Fenced`, `AnnouncedOnce`, `StopsOwn`: what the record of a run says;
- `Careful`: no owner breaks off between the end of a run and the removal of its stop request, no removal fails, no stop is late;
- `Known`: the invariant; `Triple` and its rules: what a program does from data in a condition;
- `triple_*`: one for each function of the manager.
-/

namespace Docich.PuyoProgram

open List Option

open GameSwitch (RequestId GameName ActiveIdentity Canonical Receipt Result SwitchResult)
open Durable.Owning (Ensures)
open Relation (ReflTransGen)

/-! ## The state file -/

def Status.starts : Status → Bool
  | .starting | .failed => true
  | _ => false

def Status.shows : Status → Bool
  | .active | .restoring => true
  | _ => false

structure Shape (s : State) : Prop where
  owned : s.status.released = false → s.rotation_request_id.isSome = true
  start : s.status.starts = true → s.start_request_id = s.rotation_request_id ∧ s.switch_request_id = s.rotation_request_id
  unstarted : s.status.starts = true → s.started_at = none ∧ s.puyo_program_runtime_identity = none ∧ ∀ key, s.announce key = none
  view : s.status.shows = true → ∃ i, s.puyo_program_runtime_identity = some i ∧ i.game = VIEW_NAME
  silent : s.status.shows = true → s.announce .result = none
  restore : s.status = .restoring → s.restore_request_id.isSome = true ∧ s.switch_request_id = s.restore_request_id
  previous : s.previous_game = s.previous_runtime_identity.map ActiveIdentity.game
  other : s.previous_game ≠ some VIEW_NAME

theorem shape_idle : Shape {} := by
  constructor <;> simp [Status.released, Status.starts, Status.shows]

/-- A released state with the same runtimes. -/
theorem Shape.released {s s' : State} (h : Shape s) (hreleased : s'.status.released = true) (hgame : s'.previous_game = s.previous_game)
    (hidentity : s'.previous_runtime_identity = s.previous_runtime_identity) : Shape s' := by
  refine ⟨fun hs => ?_, fun hs => ?_, fun hs => ?_, fun hs => ?_, fun hs => ?_, fun hs => ?_, by rw [hgame, hidentity, h.previous],
    by rw [hgame]; exact h.other⟩
  · rw [hreleased] at hs
    cases hs
  all_goals
    cases hstatus : s'.status <;> rw [hstatus] at hs hreleased <;> cases hs <;> cases hreleased

/-! ## The record -/

def SwitchCall.target : SwitchCall → Option GameName
  | .start game _ | .switch game _ _ => some game
  | .stop _ _ => none

def SwitchCall.source : SwitchCall → Option ActiveIdentity
  | .start _ _ => none
  | .switch _ _ i | .stop _ i => some i

/-- The view was brought up as this runtime by a start of the run's own request. -/
def Started (run : RequestId) (i : ActiveIdentity) (log : List Event) : Prop :=
  ∃ call result receipt status body, Event.dispatched run call (.ok result) ∈ log ∧ call.target = some VIEW_NAME ∧
    result.receipt = some receipt ∧ resultOf receipt = some (status, body) ∧ body.requestId = some run ∧
    activeRuntime body = some i ∧ i.game = VIEW_NAME

/-- Whatever is asked of the game switch but a start of the view is fenced with the view that the run has started. -/
def Fenced (log : List Event) : Prop :=
  ∀ later run call answer earlier, log = later ++ .dispatched run call answer :: earlier → call.target ≠ some VIEW_NAME →
    ∃ i, call.source = some i ∧ Started run i earlier

def announcements (log : List Event) : List (RequestId × AnnounceKey) :=
  log.filterMap fun e => match e with
    | .announced run key => some (run, key)
    | _ => none

def AnnouncedOnce (log : List Event) : Prop := (announcements log).Nodup

/-- A run sees no stop request that was written before it was begun, for another run. -/
def StopsOwn (log : List Event) : Prop :=
  ∀ run mark, Event.obeyed run mark ∈ log → mark.asked = some run ∨ mark.during = some run

variable {log : List Event} {key : AnnounceKey} {P : Disk → Prop} {reason : EndReason} {request : RequestId}
variable {run : RequestId} {log : List Event} {e : Event} {runs : List RequestId}
    {now duration poll : ℚ} {a : Announced} {c : SwitchCall} {result : SwitchResult}
    {status : GameSwitch.SwitchStatus} {canonical : Canonical} {rounds : ℕ} {cfg : Config}

theorem Started.mono {i : ActiveIdentity} {log' : List Event} (h : Started run i log) (hlog : log ⊆ log') :
    Started run i log' := by
  obtain ⟨call, result, receipt, status, body, hmem, hrest⟩ := h
  exact ⟨call, result, receipt, status, body, hlog hmem, hrest⟩

/-- One more event. -/
theorem Fenced.cons (h : Fenced log)
    (he : ∀ run call answer, e = .dispatched run call answer → call.target ≠ some VIEW_NAME → ∃ i, call.source = some i ∧ Started run i log) :
    Fenced (e :: log) := by
  intro later run call answer earlier hlog htarget
  cases later with
  | nil =>
    obtain ⟨rfl, rfl⟩ := List.cons.inj hlog
    exact he run call answer rfl htarget
  | cons e' later => exact h later run call answer earlier (List.cons.inj hlog).2 htarget

theorem mem_announcements : (run, key) ∈ announcements log ↔ Event.announced run key ∈ log := by
  constructor
  · intro h
    obtain ⟨e, he, h⟩ := mem_filterMap.mp h
    cases e <;> cases h
    exact he
  · exact fun h => mem_filterMap.mpr ⟨_, h, rfl⟩

/-! ## The invariant -/

structure Kept (state : State) (runs : List RequestId) (log : List Event) : Prop where
  shape : Shape state
  begun : ∀ run, state.rotation_request_id = some run → run ∈ runs
  told : ∀ run key, Event.announced run key ∈ log →
    run ∈ runs ∧ (state.rotation_request_id = some run → (state.announce key).isSome = true)
  once : AnnouncedOnce log
  started : ∀ run i, state.rotation_request_id = some run → state.puyo_program_runtime_identity = some i → Started run i log
  fenced : Fenced log

theorem kept_empty : Kept {} [] [] := by
  refine ⟨shape_idle, nofun, fun run key h => absurd h not_mem_nil, nodup_nil, nofun, ?_⟩
  intro later run call answer earlier hlog
  cases later <;> cases hlog

/-- A stop request is not left behind by a run that has ended. -/
def Settled (d : Disk) : Prop := d.stop.isSome = true → d.state.status.released = false

structure Surroundings.Careful (env : Surroundings) : Prop where
  breaks : ∀ d, env.mayBreak d → Settled d
  stops : ∀ d, env.mayStop d → d.state.status.released = false
  removes : ¬ env.mayKeepStop

structure Obedient (d : Disk) : Prop where
  during : ∀ mark, d.stop = some mark → mark.during = d.state.rotation_request_id
  own : StopsOwn d.log

structure Known (env : Surroundings) (d : Disk) : Prop where
  kept : Kept d.state d.begun d.log
  obedient : env.Careful → Obedient d

variable {env : Surroundings} {d d' : Disk}

/-! ## The others -/

theorem other_same (h : Other env d d') : d'.state = d.state ∧ d'.begun = d.begun ∧ d'.log = d.log := by
  cases h <;> exact ⟨rfl, rfl, rfl⟩

theorem other_settled (hs : Settled d) (hcareful : env.Careful) (h : Other env d d') : Settled d' := by
  cases h with
  | found _ => exact hs
  | written _ hm => exact fun _ => hcareful.stops d hm
  | elsewhere plane => exact hs

theorem other_known (hk : Known env d) (h : Other env d d') : Known env d' := by
  obtain ⟨hstate, hbegun, hlog⟩ := other_same h
  refine ⟨by rw [hstate, hbegun, hlog]; exact hk.kept, fun hcareful => ⟨fun mark hmark => ?_, by rw [hlog]; exact (hk.obedient hcareful).own⟩⟩
  cases h with
  | found _ => exact (hk.obedient hcareful).during mark hmark
  | written _ _ =>
    cases hmark
    rfl
  | elsewhere plane => exact (hk.obedient hcareful).during mark hmark

/-! ## Triples -/

/-- A condition that the others keep. -/
def Steady (env : Surroundings) (P : Disk → Prop) : Prop := ∀ d d', P d → Other env d d' → P d'

theorem Steady.many (hP : Steady env P) (hp : P d) (h : ReflTransGen (Other env) d d') : P d' := by
  induction h with
  | refl => exact hp
  | tail _ hstep ih => exact hP _ _ ih hstep

/-- How a program ends: in `R`, or with an exception and the data settled. -/
def Ends {α : Type} (env : Surroundings) (R : α → Disk → Prop) : Except Exc α → Disk → Prop
  | .ok a, d => Known env d ∧ R a d
  | .error _, d => Known env d ∧ (env.Careful → Settled d)

/-- What a program does from data in `P`. -/
def Triple {α : Type} (env : Surroundings) (P : Disk → Prop) (x : M α) (R : α → Disk → Prop) : Prop :=
  ∀ d, Known env d → P d → Ensures (world env) (Known env) x d (Ends env R)

section Rules

variable {α β : Type} {P P' : Disk → Prop} {R R' : α → Disk → Prop} {T : β → Disk → Prop} {x : M α} {f : α → M β}

theorem triple_pure {a : α} (h : ∀ d, P d → R a d) : Triple env P (pure a) R := fun d hk hp => ⟨hk, h d hp⟩

theorem triple_raise {e : Exc} (h : ∀ d, P d → env.Careful → Settled d) : Triple env P (.raise e : M α) R :=
  fun d hk hp => ⟨hk, h d hp⟩

theorem triple_bind (hx : Triple env P x R) (hf : ∀ a, Triple env (R a) (f a) T) : Triple env P (x >>= f) T :=
  fun d hk hp => (hx d hk hp).bind (fun a d' ha => hf a d' ha.1 ha.2) fun _ _ he => he

theorem Triple.pre (hx : Triple env P x R) (h : ∀ d, P' d → P d) : Triple env P' x R := fun d hk hp => hx d hk (h d hp)

theorem Triple.post (hx : Triple env P x R) (h : ∀ a d, R a d → R' a d) : Triple env P x R' := by
  refine fun d hk hp => (hx d hk hp).mono fun r d' hr => ?_
  cases r with
  | ok a => exact ⟨hr.1, h a d' hr.2⟩
  | error e => exact hr

/-- What holds at all times may be used. -/
theorem Triple.knowing (hx : Triple env (fun d => Known env d ∧ P d) x R) : Triple env P x R := fun d hk hp => hx d hk ⟨hk, hp⟩

theorem triple_ite {c : Prop} [Decidable c] {x y : M α} (hx : c → Triple env P x R) (hy : ¬ c → Triple env P y R) :
    Triple env P (if c then x else y) R := by
  split
  · next h => exact hx h
  · next h => exact hy h

/-- A fact about no data may be used outside. -/
theorem triple_fact {p : Prop} (hx : p → Triple env P x R) : Triple env (fun d => p ∧ P d) x R := fun d hk hp => hx hp.1 d hk hp.2

theorem triple_require {c : Bool} {text : String} (h : ∀ d, P d → env.Careful → Settled d) :
    Triple env P (require c text) fun _ d => c = true ∧ P d := by
  cases c with
  | true => exact triple_pure fun d hp => ⟨rfl, hp⟩
  | false => exact triple_raise h

theorem triple_call {q : Ask} {R : q.Answer → Disk → Prop} (hP : Steady env P)
    (hq : ∀ d x d', Known env d → P d → perform env q d x d' → Known env d' ∧ R x d') : Triple env P (call q) R := by
  intro d hk hp d₁ hd hk₁ x d' hx
  have hnext := hq d₁ x d' hk₁ (hP.many hp hd) hx
  exact ⟨hnext.1, hnext⟩

theorem triple_ask {q : Ask} (hP : Steady env P) (hq : ∀ d x d', perform env q d x d' → d' = d) : Triple env P (call q) fun _ d => P d := by
  refine triple_call hP fun d x d' hk hp hx => ?_
  rw [hq d x d' hx]
  exact ⟨hk, hp⟩

theorem triple_orRaise {x : M (Except Exc α)}
    (hx : Triple env P x fun r d => match r with | .ok a => R a d | .error _ => env.Careful → Settled d) : Triple env P (orRaise x) R := by
  refine triple_bind hx fun r => ?_
  cases r with
  | ok a => exact triple_pure fun _ hp => hp
  | error e => exact triple_raise fun _ hp => hp

/-- Something is read, or the reading raises. -/
theorem triple_read {x : M (Except Exc α)} (hx : Triple env P x fun _ d => P d) (hsettled : ∀ d, P d → env.Careful → Settled d) :
    Triple env P (orRaise x) fun _ d => P d := by
  refine triple_orRaise (hx.post fun r d hp => ?_)
  cases r with
  | ok a => exact hp
  | error e => exact hsettled d hp

end Rules

/-! ## Writes -/

/-- The state file, and what is known of the runs and the record. -/
structure On (s : State) (L : List RequestId → List Event → Prop) (d : Disk) : Prop where
  state : d.state = s
  facts : L d.begun d.log

/-- Nothing is known. -/
abbrev Any : List RequestId → List Event → Prop := fun _ _ => True

variable {s s' : State} {L L' : List RequestId → List Event → Prop} {run : RequestId} {i : ActiveIdentity}

theorem on_steady : Steady env (On s L) := by
  intro d d' hp h
  obtain ⟨hstate, hbegun, hlog⟩ := other_same h
  exact ⟨hstate.trans hp.state, by rw [hbegun, hlog]; exact hp.facts⟩

theorem On.any (h : On s L d) : On s Any d := ⟨h.state, trivial⟩

/-- A run that goes on is no end. -/
theorem On.settled (h : On s L d) (hbusy : s.status.released = false) : Settled d := fun _ => by rw [h.state, hbusy]

/-- Another state of the same run. -/
structure Same (s s' : State) : Prop where
  shape : Shape s'
  run : s'.rotation_request_id = s.rotation_request_id
  announce : ∀ key, (s.announce key).isSome = true → (s'.announce key).isSome = true

theorem Kept.same (h : Kept s runs log) (hs : Same s s')
    (hidentity : ∀ run i, s.rotation_request_id = some run → s'.puyo_program_runtime_identity = some i →
      s.puyo_program_runtime_identity = some i ∨ Started run i log) : Kept s' runs log := by
  refine ⟨hs.shape, fun run hrun => h.begun run (hs.run ▸ hrun), fun run key htold => ?_, h.once, fun run i hrun hi => ?_, h.fenced⟩
  · obtain ⟨hbegun, hrecorded⟩ := h.told run key htold
    exact ⟨hbegun, fun hrun => hs.announce key (hrecorded (hs.run ▸ hrun))⟩
  · rw [hs.run] at hrun
    rcases hidentity run i hrun hi with hold | hnew
    · exact h.started run i hrun hold
    · exact hnew

theorem triple_save (hP : Steady env P) (h : ∀ d, Known env d → P d → Kept s' (beginning d s') d.log ∧
      (env.Careful → ∀ mark, d.stop = some mark → mark.during = s'.rotation_request_id)) :
    Triple env P (save s') fun _ d' => ∃ d, Known env d ∧ P d ∧ d' = { d with state := s', begun := beginning d s' } := by
  refine triple_orRaise (triple_call hP fun d x d' hk hp hx => ?_)
  rcases hx with ⟨rfl, rfl⟩ | ⟨⟨hbreak, e, rfl⟩, rfl⟩
  · obtain ⟨hkept, hduring⟩ := h d hk hp
    exact ⟨⟨hkept, fun hcareful => ⟨hduring hcareful, (hk.obedient hcareful).own⟩⟩, d, hk, hp, rfl⟩
  · exact ⟨hk, fun hcareful => hcareful.breaks _ hbreak⟩

theorem beginning_same (hrun : s'.rotation_request_id = d.state.rotation_request_id) : beginning d s' = d.begun := if_pos hrun

/-- A write in the same run. -/
theorem triple_saveSame (hs : Same s s')
    (hidentity : ∀ runs log, L runs log → ∀ run i, s.rotation_request_id = some run → s'.puyo_program_runtime_identity = some i →
      s.puyo_program_runtime_identity = some i ∨ Started run i log) : Triple env (On s L) (save s') fun _ d => On s' L d := by
  have hrun : ∀ d, On s L d → beginning d s' = d.begun := fun d hp => beginning_same (by rw [hs.run, hp.state])
  refine (triple_save on_steady fun d hk hp => ?_).post fun _ d' h => ?_
  · rw [hrun d hp]
    refine ⟨Kept.same (hp.state ▸ hk.kept) hs (hidentity d.begun d.log hp.facts), fun hcareful mark hmark => ?_⟩
    rw [(hk.obedient hcareful).during mark hmark, hp.state, hs.run]
  · obtain ⟨d, -, hp, rfl⟩ := h
    exact ⟨rfl, by rw [hrun d hp]; exact hp.facts⟩

theorem triple_clear (hP : Steady env P) :
    Triple env P (call .clearStopRequest) fun _ d => env.Careful → Settled d := by
  refine triple_call hP fun d x d' hk hp hx => ?_
  rcases hx with ⟨-, rfl⟩ | ⟨hkeep, -, rfl⟩
  · refine ⟨⟨hk.kept, fun hcareful => ⟨fun mark hmark => ?_, (hk.obedient hcareful).own⟩⟩, fun _ hstop => ?_⟩
    · cases hmark
    · cases hstop
  · exact ⟨hk, fun hcareful => absurd hkeep hcareful.removes⟩

variable (h : Shape s)

include h in
/-- The end of a run. -/
theorem same_interrupted : Same s (interrupted s now reason) :=
  ⟨h.released rfl rfl rfl, rfl, fun _ h => h⟩

/-- Every end: saved, and the stop request removed. -/
theorem triple_end {α : Type} {a : α} {ended : ℚ → State} (hs : ∀ now, Same s (ended now))
    (hidentity : ∀ now, (ended now).puyo_program_runtime_identity = s.puyo_program_runtime_identity) :
    Triple env (On s L) (do
      let now ← call .clock
      save (ended now)
      let _ ← call .clearStopRequest
      pure a) fun _ d => env.Careful → Settled d := by
  refine triple_bind (triple_ask (q := .clock) on_steady fun _ _ _ h => h) fun now => ?_
  refine triple_bind (triple_saveSame (hs now) fun _ _ _ _ _ _ hi => .inl (by rw [← hidentity now, hi])) fun _ => ?_
  exact triple_bind (triple_clear on_steady) fun _ => triple_pure fun _ h => h

theorem triple_markInterrupted (hs : Shape s) :
    Triple env (On s L) (markInterrupted s reason) fun _ d => env.Careful → Settled d :=
  triple_end (fun _ => same_interrupted hs) fun _ => rfl

/-! ## Announcements -/

theorem announcements_announced : announcements (.announced run key :: log) = (run, key) :: announcements log := rfl

theorem Kept.announced (h : Kept s runs log)
    (hrun : s.rotation_request_id = some run) (hkey : (s.announce key).isSome = true) (hnew : Event.announced run key ∉ log) :
    Kept s runs (.announced run key :: log) := by
  refine ⟨h.shape, h.begun, fun run' key' htold => ?_, ?_, fun run' i hrun' hi => ?_, h.fenced.cons fun _ _ _ he => by cases he⟩
  · rcases mem_cons.mp htold with heq | htold
    · cases heq
      exact ⟨h.begun _ hrun, fun _ => hkey⟩
    · exact h.told run' key' htold
  · rw [AnnouncedOnce, announcements_announced, nodup_cons]
    exact ⟨fun hmem => hnew (mem_announcements.mp hmem), h.once⟩
  · exact (h.started run' i hrun' hi).mono (subset_cons_self _ _)

theorem triple_told (hrun : s.rotation_request_id = some run) (hkey : (s.announce key).isSome = true) :
    Triple env (On s fun _ log => Event.announced run key ∉ log) (call (.announce run key)) fun _ d => On s Any d := by
  refine triple_call on_steady fun d x d' hk hp hx => ?_
  cases hx
  refine ⟨⟨?_, fun hcareful => ⟨(hk.obedient hcareful).during, fun run' mark hmem => ?_⟩⟩, hp.state, trivial⟩
  · have hkept := hk.kept
    rw [hp.state] at hkept ⊢
    exact hkept.announced hrun hkey hp.facts
  · rcases mem_cons.mp hmem with heq | hmem
    · cases heq
    · exact (hk.obedient hcareful).own run' mark hmem

/-- The states that differ from one in what is recorded of an announcement. -/
structure Tells (s : State) (key : AnnounceKey) (s' : State) : Prop where
  status : s'.status = s.status
  run : s'.rotation_request_id = s.rotation_request_id
  identity : s'.puyo_program_runtime_identity = s.puyo_program_runtime_identity
  shape : Shape s'

theorem tell_self : (tell s key a).announce key = some a := if_pos rfl

theorem tell_of_ne {k : AnnounceKey} (h : k ≠ key) : (tell s key a).announce k = s.announce k := if_neg h

theorem tell_tell {b : Announced} : tell (tell s key a) key b = tell s key b := by
  have hannounce : (tell (tell s key a) key b).announce = (tell s key b).announce := by
    funext k
    by_cases hk : k = key
    · rw [hk, tell_self, tell_self]
    · rw [tell_of_ne hk, tell_of_ne hk, tell_of_ne hk]
  exact congrArg (fun f => { s with announce := f }) hannounce

theorem same_tell (hshape : Shape (tell s key a)) : Same s (tell s key a) := by
  refine ⟨hshape, rfl, fun k hk => ?_⟩
  by_cases hkey : k = key
  · rw [hkey, tell_self]
    rfl
  · rwa [tell_of_ne hkey]

/-- An announcement that has not been tried. -/
theorem triple_announce (hrun : s.rotation_request_id = some run) (hnone : s.announce key = none)
    (hshape : ∀ a, Shape (tell s key a)) :
    Triple env (On s Any) (announce s key) fun s' d => On s' Any d ∧ Tells s key s' := by
  unfold announce
  rw [hrun]
  dsimp only
  rw [hnone, if_neg nofun]
  have hfresh : Triple env (On s fun _ log => Event.announced run key ∉ log) (do
      save (tell s key (.tried run))
      let sent ← call (.announce run key)
      let done := tell (tell s key (.tried run)) key (.done run (sent.getD (.failed, .failed)).1 (sent.getD (.failed, .failed)).2)
      save done
      pure done) fun s' d => On s' Any d ∧ Tells s key s' := by
    refine triple_bind (triple_saveSame (same_tell (hshape _)) fun _ _ _ _ _ _ hi => .inl hi) fun _ => ?_
    refine triple_bind (triple_told hrun (by rw [tell_self]; rfl)) fun sent => ?_
    have hdone : ∀ a, Shape (tell (tell s key (.tried run)) key a) := fun a => by rw [tell_tell]; exact hshape a
    refine triple_bind (triple_saveSame (same_tell (hdone _)) fun _ _ _ _ _ _ hi => .inl hi) fun _ => ?_
    exact triple_pure fun d hp => ⟨hp, rfl, rfl, rfl, hdone _⟩
  refine Triple.knowing (Triple.pre hfresh fun d h => ⟨h.2.state, fun htold => ?_⟩)
  have hrecorded := (h.1.kept.told run key htold).2 (by rw [h.2.state, hrun])
  rw [h.2.state, hnone] at hrecorded
  cases hrecorded

/-! ## The game switch -/

/-- An event that announces nothing. -/
theorem Kept.noted (h : Kept s runs log)
    (he : ∀ run key, e ≠ .announced run key)
    (hfence : ∀ run call answer, e = .dispatched run call answer → call.target ≠ some VIEW_NAME →
      ∃ i, call.source = some i ∧ Started run i log) : Kept s runs (e :: log) := by
  refine ⟨h.shape, h.begun, fun run key htold => ?_, ?_, fun run i hrun hi => ?_, h.fenced.cons hfence⟩
  · rcases mem_cons.mp htold with heq | htold
    · exact absurd heq.symm (he run key)
    · exact h.told run key htold
  · have hsame : announcements (e :: log) = announcements log := by
      cases e with
      | announced run key => exact absurd rfl (he run key)
      | dispatched run call answer => rfl
      | obeyed run mark => rfl
    rw [AnnouncedOnce, hsame]
    exact h.once
  · exact (h.started run i hrun hi).mono (subset_cons_self _ _)

theorem triple_dispatch (hfence : c.target ≠ some VIEW_NAME → ∃ i, c.source = some i ∧ s.rotation_request_id = some run ∧
      s.puyo_program_runtime_identity = some i) :
    Triple env (On s L) (call (.dispatch run c)) fun x d => On s (fun _ log => Event.dispatched run c x ∈ log) d := by
  refine triple_call on_steady fun d x d' hk hp hx => ?_
  obtain ⟨plane, -, rfl⟩ := hx
  refine ⟨⟨hk.kept.noted (fun _ _ he => by cases he) ?_, fun hcareful => ⟨(hk.obedient hcareful).during, fun run' mark hmem => ?_⟩⟩,
    hp.state, mem_cons_self⟩
  · intro run' c' answer he htarget
    cases he
    obtain ⟨i, hsource, hrun, hi⟩ := hfence htarget
    exact ⟨i, hsource, hk.kept.started run i (by rw [hp.state, hrun]) (by rw [hp.state, hi])⟩
  · rcases mem_cons.mp hmem with heq | hmem
    · cases heq
    · exact (hk.obedient hcareful).own run' mark hmem

/-- A run looks for a stop request: of its own, or there is none. -/
theorem triple_stopRequested (hP : Steady env P) (hstop : ∀ d, P d → env.Careful →
      d.state.rotation_request_id = some run ∨ d.stop = none) (hlog : ∀ d log, P d → P { d with log := log }) :
    Triple env P (call (.stopRequested run)) fun x d => P d ∧ x = d.stop.isSome := by
  refine triple_call hP fun d x d' hk hp hx => ?_
  obtain ⟨rfl, rfl⟩ := hx
  have hkept : ∀ o : Option Mark, Kept d.state d.begun ((o.map (Event.obeyed run)).toList ++ d.log) := by
    intro o
    cases o with
    | none => exact hk.kept
    | some mark => exact hk.kept.noted (fun _ _ he => by cases he) fun _ _ _ he => by cases he
  refine ⟨⟨hkept d.stop, fun hcareful => ⟨(hk.obedient hcareful).during, fun run' mark hmem => ?_⟩⟩, hlog d _ hp, rfl⟩
  rcases mem_append.mp hmem with hmem | hmem
  · obtain ⟨mark', hmark, heq⟩ := map_eq_some_iff.mp (mem_toList.mp hmem)
    cases heq
    rcases hstop d hp hcareful with hrun | hnone
    · exact .inr (((hk.obedient hcareful).during mark hmark).trans hrun)
    · rw [hmark] at hnone
      cases hnone
  · exact (hk.obedient hcareful).own run' mark hmem

/-- A run that goes on looks for a stop request. -/
theorem triple_stopped (hrun : s.rotation_request_id = some run) :
    Triple env (On s Any) (call (.stopRequested run)) fun _ d => On s Any d :=
  (triple_stopRequested on_steady (fun d hp _ => .inl (by rw [hp.state, hrun])) fun d log hp => ⟨hp.state, trivial⟩).post fun _ _ h => h.1

/-! ## The start -/

section

variable {α : Type} {R : α → Disk → Prop}

/-- A program that raises while a run goes on. -/
theorem triple_fail (hbusy : s.status.released = false) {text : String} : Triple env (On s L) (fail text : M α) R :=
  triple_raise fun _ hp _ => hp.settled hbusy

theorem startedIdentity_spec {request : RequestId} {result : SwitchResult} {c : SwitchCall} (htarget : c.target = some VIEW_NAME)
    (hbusy : s.status.released = false) :
    Triple env (On s fun _ log => Event.dispatched request c (.ok result) ∈ log) (startedIdentity request result) fun i d =>
      On s (fun _ log => Started request i log) d ∧ i.game = VIEW_NAME := by
  unfold startedIdentity
  split
  · exact triple_fail hbusy
  rename_i receipt status body hreceipt
  refine triple_ite (fun hvalid => ?_) fun _ => triple_fail hbusy
  split
  case h_2 => exact triple_fail hbusy
  rename_i i hi
  refine triple_ite (fun hgame => ?_) fun _ => triple_fail hbusy
  refine triple_pure fun d hp => ⟨⟨hp.state, ?_⟩, hgame.1⟩
  obtain ⟨r, hr, hbody⟩ := bind_eq_some_iff.mp hreceipt
  obtain ⟨body', hbody', heq⟩ := map_eq_some_iff.mp hbody
  cases heq
  exact ⟨c, result, _, _, _, hp.facts, htarget, hr, hbody', hvalid.2.2.2.1, hi, hgame.1⟩

end

/-! ## The functions of the manager -/

/-- The fields that the shape is about. -/
def State.core (s : State) :=
  (s.status, s.rotation_request_id, s.start_request_id, s.switch_request_id, s.restore_request_id, s.previous_game,
    s.previous_runtime_identity, s.puyo_program_runtime_identity, s.started_at, s.announce)

include h

variable (hs : s'.core = s.core)

include hs

theorem Shape.congr : Shape s' := by
  simp only [State.core, Prod.mk.injEq] at hs
  obtain ⟨hstatus, hrun, hstart, hswitch, hrestore, hgame, hprevious, hidentity, hat, hannounce⟩ := hs
  constructor
  · rw [hstatus, hrun]
    exact h.owned
  · rw [hstatus, hstart, hrun, hswitch]
    exact h.start
  · rw [hstatus, hat, hidentity, hannounce]
    exact h.unstarted
  · rw [hstatus, hidentity]
    exact h.view
  · rw [hstatus, hannounce]
    exact h.silent
  · rw [hstatus, hrestore, hswitch]
    exact h.restore
  · rw [hgame, hprevious]
    exact h.previous
  · rw [hgame]
    exact h.other

theorem same_core : Same s s' := by
  refine ⟨h.congr hs, ?_, fun key hkey => ?_⟩
  · exact congrArg (fun c => c.2.1) hs
  · have hannounce : s'.announce = s.announce := congrArg (fun c => c.2.2.2.2.2.2.2.2.2) hs
    rwa [hannounce]

omit hs

omit h

include hs

theorem identity_core : s'.puyo_program_runtime_identity = s.puyo_program_runtime_identity :=
  congrArg (fun c => c.2.2.2.2.2.2.2.1) hs

include h in
/-- A write that leaves these fields. -/
theorem triple_saveCore : Triple env (On s L) (save s') fun _ d => On s' L d :=
  triple_saveSame (same_core h hs) fun _ _ _ _ _ _ hi => .inl (by rw [← identity_core hs, hi])

omit hs

theorem Shape.busy (h : s.status.starts = true ∨ s.status.shows = true) : s.status.released = false := by
  cases hs : s.status <;> rw [hs] at h <;> first | rfl | simp [Status.starts, Status.shows] at h

variable (hstatus : s.status = .starting)

include hstatus

include h in
theorem shape_failedStart :
    Shape (failedStart s now result) := by
  have hstarts : s.status.starts = true := by rw [hstatus]; rfl
  exact ⟨fun _ => h.owned (Shape.busy (.inl hstarts)), fun _ => h.start hstarts, fun _ => h.unstarted hstarts, nofun, nofun, nofun, h.previous,
    h.other⟩

theorem core_pendingStart {i : Option ActiveIdentity} :
    (pendingStart s status i).core = s.core := by
  simp [State.core, pendingStart, hstatus]

omit hstatus

include h

include hstatus in
theorem shape_running (hi : i.game = VIEW_NAME) {started : ℚ} :
    Shape (running s i started duration) := by
  have hstarts : s.status.starts = true := by rw [hstatus]; rfl
  exact ⟨fun _ => h.owned (Shape.busy (.inl hstarts)), nofun, nofun, fun _ => ⟨i, rfl, hi⟩, fun _ => (h.unstarted hstarts).2.2 .result, nofun,
    h.previous, h.other⟩

theorem shape_tellStart (hstatus : s.status = .active) (a : Announced) : Shape (tell s .start a) := by
  have hshows : s.status.shows = true := by rw [hstatus]; rfl
  refine ⟨h.owned, h.start, fun hs => ?_, h.view, fun _ => ?_, h.restore, h.previous, h.other⟩
  · change s.status.starts = true at hs
    rw [hstatus] at hs
    cases hs
  · rw [tell_of_ne (by decide)]
    exact h.silent hshows

omit h

/-- An outcome, or a run that is active. -/
def Goes (env : Surroundings) (r : Except Outcome State) (d : Disk) : Prop :=
  match r with
  | .error _ => env.Careful → Settled d
  | .ok s' => On s' Any d ∧ Shape s' ∧ s'.status = .active

include hstatus in
include h in
theorem triple_confirmStart (hrun : s.rotation_request_id = some run)
    (hgame : i.game = VIEW_NAME) {canonical : Option Canonical} :
    Triple env (On s fun _ log => Started run i log) (confirmStart duration s i canonical) (Goes env) := by
  have hstarts : s.status.starts = true := by rw [hstatus]; rfl
  cases canonical with
  | none =>
    refine triple_bind (triple_saveCore h (core_pendingStart hstatus)) fun _ => ?_
    exact triple_pure fun d hp _ => hp.settled rfl
  | some canonical =>
    refine triple_ite (fun _ => ?_) fun _ => triple_ite (fun _ => ?_) fun _ => ?_
    · refine triple_bind (triple_ask (q := .clock) on_steady fun _ _ _ h => h) fun started => ?_
      have hrunning : Shape (running s i started duration) := shape_running h hstatus hgame
      have hrun' : (running s i started duration).rotation_request_id = some run := hrun
      refine triple_bind (triple_saveSame ⟨hrunning, rfl, fun _ h => h⟩ fun runs log hlog run' i' hrun' hi' => .inr ?_) fun _ => ?_
      · cases hi'
        obtain rfl : run = run' := some.inj (hrun.symm.trans hrun')
        exact hlog
      · refine triple_bind (Triple.pre (triple_announce hrun' ((h.unstarted hstarts).2.2 .start)
          fun a => shape_tellStart hrunning rfl a) fun d hp => hp.any) fun s' => ?_
        refine triple_pure fun d hp => ?_
        split
        · exact fun _ => hp.1.settled (by rw [hp.2.status]; rfl)
        · exact ⟨hp.1, hp.2.shape, hp.2.status⟩
    · refine triple_bind (triple_markInterrupted h) fun o => ?_
      exact triple_pure fun d hp => hp
    · refine triple_bind (triple_saveCore h (core_pendingStart hstatus)) fun _ => ?_
      exact triple_pure fun d hp _ => hp.settled rfl

theorem startCall_target (s : State) (request : RequestId) : (startCall s request).target = some VIEW_NAME := by
  unfold startCall
  cases s.previous_runtime_identity <;> rfl

/-- A call of the game switch that answers. -/
theorem triple_dispatched (hbusy : s.status.released = false)
    (hfence : c.target ≠ some VIEW_NAME → ∃ i, c.source = some i ∧ s.rotation_request_id = some run ∧
      s.puyo_program_runtime_identity = some i) :
    Triple env (On s L) (orRaise (call (.dispatch run c))) fun result d => On s (fun _ log => Event.dispatched run c (.ok result) ∈ log) d := by
  refine triple_orRaise ((triple_dispatch hfence).post fun r d hp => ?_)
  cases r with
  | ok result => exact hp
  | error e => exact fun _ => hp.settled hbusy

include h

include hstatus in
theorem triple_dispatchStart :
    Triple env (On s Any) (dispatchStart duration s) (Goes env) := by
  have hstarts : s.status.starts = true := by rw [hstatus]; rfl
  have hbusy := Shape.busy (.inl hstarts)
  unfold dispatchStart
  split
  · exact triple_fail hbusy
  rename_i request _
  refine triple_bind (triple_require fun _ hp _ => hp.settled hbusy) fun _ => triple_fact fun hrun => ?_
  replace hrun : s.rotation_request_id = some request := of_decide_eq_true hrun
  refine triple_bind (triple_dispatched hbusy fun ht => absurd (startCall_target s request) ht) fun result => ?_
  refine triple_ite (fun _ => ?_) fun _ => triple_ite (fun _ => ?_) fun _ => ?_
  · refine triple_bind (triple_saveCore h (core_pendingStart hstatus)) fun _ => ?_
    exact triple_pure fun d hp _ => hp.settled rfl
  · refine triple_bind (triple_ask (q := .clock) on_steady fun _ _ _ h => h) fun now => ?_
    refine triple_bind (triple_saveSame ⟨shape_failedStart h hstatus, rfl, fun _ h => h⟩ fun _ _ _ _ _ _ hi => .inl hi) fun _ => ?_
    exact triple_fail rfl
  · refine triple_bind (startedIdentity_spec (startCall_target s request) hbusy) fun i => ?_
    refine Triple.pre (P := fun d => i.game = VIEW_NAME ∧ On s (fun _ log => Started request i log) d) (triple_fact fun hgame => ?_)
      fun d hp => hp.symm
    refine triple_bind (triple_read (triple_ask (q := .canonical) on_steady fun _ _ _ h => h.1) fun _ hp _ => hp.settled hbusy)
      fun canonical => ?_
    exact triple_confirmStart h hstatus hrun hgame

/-! ## The restore -/

theorem shape_restoringState (hstatus : s.status = .active) :
    Shape (restoringState s now reason request) := by
  have hshows : s.status.shows = true := by rw [hstatus]; rfl
  exact ⟨fun _ => h.owned (Shape.busy (.inr hshows)), nofun, nofun, fun _ => h.view hshows, fun _ => h.silent hshows, fun _ => ⟨rfl, rfl⟩,
    h.previous, h.other⟩

omit h

theorem core_pendingRestore (hstatus : s.status = .restoring) :
    (pendingRestore s status).core = s.core := by
  simp [State.core, pendingRestore, hstatus]

theorem core_failedRestore (hstatus : s.status = .restoring) : (failedRestore s result).core = s.core := by
  simp [State.core, failedRestore, hstatus]

/-- The state of a run that shows its view, with the same run and view. -/
structure Restores (s s' : State) : Prop where
  shape : Shape s'
  status : s'.status = .restoring
  run : s'.rotation_request_id = s.rotation_request_id
  identity : s'.puyo_program_runtime_identity = s.puyo_program_runtime_identity

theorem active_of_shows (hshows : s.status.shows = true) (hstatus : s.status ≠ .restoring) : s.status = .active := by
  cases h : s.status <;> rw [h] at hshows hstatus <;> first | rfl | exact absurd rfl hstatus | cases hshows

include h

theorem triple_restoring (hshows : s.status.shows = true) :
    Triple env (On s Any) (restoring s reason) fun s' d => Restores s s' ∧ On s' Any d := by
  refine triple_ite (fun hstatus => triple_pure fun d hp => ⟨⟨h, hstatus, rfl, rfl⟩, hp⟩) fun hstatus => ?_
  have hactive := active_of_shows hshows hstatus
  refine triple_bind (triple_ask (q := .clock) on_steady fun _ _ _ h => h) fun now => ?_
  refine triple_bind (triple_ask (q := .newRequestId) on_steady fun _ _ _ h => h) fun request => ?_
  have hshape : Shape (restoringState s now reason request) := shape_restoringState h hactive
  refine triple_bind (triple_saveSame ⟨hshape, rfl, fun _ h => h⟩ fun _ _ _ _ _ _ hi => .inl hi) fun _ => ?_
  exact triple_pure fun d hp => ⟨⟨hshape, rfl, rfl, rfl⟩, hp⟩

theorem same_completed {reason : Option EndReason} :
    Same s (completed s now reason canonical) :=
  ⟨h.released rfl rfl rfl, rfl, fun _ h => h⟩

theorem triple_announceResult (hreleased : s.status.released = true) (hrun : s.rotation_request_id = some run)
    (hnone : s.announce .result = none) : Triple env (On s Any) (announceResult s) fun s' d => On s' Any d := by
  refine triple_bind (triple_ask (q := .loadResult) on_steady fun _ _ _ h => h) fun b => triple_ite (fun _ => ?_) fun _ => ?_
  · exact (triple_announce hrun hnone fun a => h.released hreleased rfl rfl).post fun _ _ hp => hp.1
  · exact triple_pure fun d hp => hp

theorem triple_confirmRestore (hstatus : s.status = .restoring) {canonical : Option Canonical} :
    Triple env (On s Any) (confirmRestore s result canonical) fun _ d => env.Careful → Settled d := by
  have hshows : s.status.shows = true := by rw [hstatus]; rfl
  have hbusy := Shape.busy (.inr hshows)
  cases canonical with
  | none =>
    refine triple_bind (triple_saveCore h (core_pendingRestore hstatus)) fun _ => ?_
    exact triple_pure fun d hp _ => hp.settled rfl
  | some canonical =>
    refine triple_bind (triple_require fun _ hp _ => hp.settled hbusy) fun _ => triple_fact fun _ => ?_
    refine triple_bind (triple_ask (q := .clock) on_steady fun _ _ _ h => h) fun now => ?_
    refine triple_bind (triple_saveSame (same_completed h) fun _ _ _ _ _ _ hi => .inl hi) fun _ => ?_
    obtain ⟨run, hrun⟩ := isSome_iff_exists.mp (h.owned hbusy)
    have hended : Shape (completed s now s.end_reason canonical) := (same_completed h).shape
    refine triple_bind (triple_announceResult hended rfl hrun (h.silent hshows)) fun s' => ?_
    exact triple_bind (triple_clear on_steady) fun _ => triple_pure fun _ h => h

omit h

theorem restoreCall_source : (restoreCall s request i).source = some i := by
  unfold restoreCall
  cases s.previous_game <;> rfl

include h in
theorem triple_dispatchRestore (hstatus : s.status = .restoring) (hrun : s.rotation_request_id = some run)
    (hi : s.puyo_program_runtime_identity = some i) :
    Triple env (On s Any) (dispatchRestore s i run request) fun _ d => env.Careful → Settled d := by
  have hbusy := Shape.busy (s := s) (.inr (by rw [hstatus]; rfl))
  refine triple_bind (triple_dispatched hbusy fun _ => ⟨i, restoreCall_source, hrun, hi⟩) fun result => ?_
  refine Triple.pre (P := On s Any) ?_ fun d hp => hp.any
  refine triple_ite (fun _ => ?_) fun _ => triple_ite (fun _ => triple_markInterrupted h) fun _ => triple_ite (fun _ => ?_) fun _ => ?_
  · refine triple_bind (triple_saveCore h (core_pendingRestore hstatus)) fun _ => ?_
    exact triple_pure fun d hp _ => hp.settled rfl
  · refine triple_bind (triple_saveCore h (core_failedRestore hstatus)) fun _ => ?_
    exact triple_fail rfl
  · refine triple_bind (triple_read (triple_ask (q := .canonical) on_steady fun _ _ _ h => h.1) fun _ hp _ => hp.settled hbusy)
      fun canonical => ?_
    exact triple_confirmRestore h hstatus

theorem triple_receiptFinished :
    Triple env (On s L) (restoreReceiptFinished s canonical) fun _ d => On s L d := by
  unfold restoreReceiptFinished
  split
  · exact triple_pure fun d hp => hp
  refine triple_bind (triple_ask (q := .receipt _) on_steady fun _ _ _ h => h.1) fun r => ?_
  split
  · exact triple_pure fun d hp => hp
  split
  · exact triple_pure fun d hp => hp
  · exact triple_pure fun d hp => hp

include h

theorem triple_restore (hshows : s.status.shows = true) :
    Triple env (On s Any) (restore s reason) fun _ d => env.Careful → Settled d := by
  have hbusy := Shape.busy (.inr hshows)
  unfold restore
  split
  case h_2 => exact triple_fail hbusy
  rename_i i run hi hrun
  refine triple_bind (triple_require fun _ hp _ => hp.settled hbusy) fun _ => triple_fact fun _ => ?_
  refine triple_bind (triple_restoring h hshows) fun s' => triple_fact fun hs' => ?_
  have hbusy' := Shape.busy (s := s') (.inr (by rw [hs'.status]; rfl))
  split
  · exact triple_fail hbusy'
  refine triple_bind (triple_require fun _ hp _ => hp.settled hbusy') fun _ => triple_fact fun _ => ?_
  refine triple_bind (triple_read (triple_ask (q := .canonical) on_steady fun _ _ _ h => h.1) fun _ hp _ => hp.settled hbusy') fun c => ?_
  split
  · exact triple_pure fun d hp _ => hp.settled hbusy'
  refine triple_bind triple_receiptFinished fun finished => ?_
  refine triple_ite (fun _ => triple_end (fun _ => same_completed hs'.shape) fun _ => rfl) fun _ => triple_ite (fun _ => ?_) fun _ => triple_ite (fun _ => ?_) fun _ => ?_
  · exact triple_dispatchRestore hs'.shape hs'.status (hs'.run.trans hrun) (hs'.identity.trans hi)
  · exact triple_markInterrupted hs'.shape
  · exact triple_fail hbusy'

/-! ## Waiting -/

theorem triple_waitLoop (hstatus : s.status = .active) (hrun : s.rotation_request_id = some run) (rounds : ℕ) :
    Triple env (On s Any) (waitLoop poll run i s rounds) fun _ d => env.Careful → Settled d := by
  have hshows : s.status.shows = true := by rw [hstatus]; rfl
  have hbusy := Shape.busy (.inr hshows)
  induction rounds with
  | zero => exact triple_raise fun d hp _ => hp.settled hbusy
  | succ rounds ih =>
    refine triple_bind (triple_stopped hrun) fun stopped => triple_ite (fun _ => triple_restore h hshows) fun _ => ?_
    refine triple_bind (triple_read (triple_ask (q := .canonical) on_steady fun _ _ _ h => h.1) fun _ hp _ => hp.settled hbusy) fun c => ?_
    split
    · refine triple_bind (triple_ask (q := .clock) on_steady fun _ _ _ h => h) fun now => ?_
      exact triple_bind (triple_ask (q := .sleep _) on_steady fun _ _ _ h => h) fun _ => ih
    refine triple_ite (fun _ => ?_) fun _ => triple_ite (fun _ => ?_) fun _ => triple_ite (fun _ => ?_) fun _ => triple_ite (fun _ => ?_)
      fun _ => ?_
    · exact triple_pure fun d hp _ => hp.settled hbusy
    · exact triple_pure fun d hp _ => hp.settled hbusy
    · exact triple_fail hbusy
    · exact triple_markInterrupted h
    split
    · exact triple_fail hbusy
    refine triple_bind (triple_require fun _ hp _ => hp.settled hbusy) fun _ => triple_fact fun _ => ?_
    refine triple_bind (triple_ask (q := .clock) on_steady fun _ _ _ h => h) fun now => triple_ite (fun _ => triple_restore h hshows)
      fun _ => ?_
    exact triple_bind (triple_ask (q := .sleep _) on_steady fun _ _ _ h => h) fun _ => ih

theorem triple_waitAndRestore (hstatus : s.status = .active) :
    Triple env (On s Any) (waitAndRestore poll rounds s) fun _ d => env.Careful → Settled d := by
  have hbusy := Shape.busy (s := s) (.inr (by rw [hstatus]; rfl))
  unfold waitAndRestore
  split
  case h_2 => exact triple_fail hbusy
  rename_i i run hi hrun
  refine triple_bind (triple_require fun _ hp _ => hp.settled hbusy) fun _ => triple_fact fun _ => ?_
  exact triple_waitLoop h hstatus hrun rounds

include hstatus

theorem triple_dispatchAndWait :
    Triple env (On s Any) (dispatchAndWait cfg rounds s) fun _ d => env.Careful → Settled d := by
  refine triple_bind (triple_dispatchStart h hstatus) fun r => ?_
  cases r with
  | error o => exact triple_pure fun d hp => hp
  | ok s' => exact Triple.pre (triple_fact fun hs' => triple_waitAndRestore hs'.1 hs'.2) fun d hp => ⟨hp.2, hp.1⟩

/-! ## The calls of the rotation -/

theorem triple_resumeStart (hrun : s.rotation_request_id = some request)
    :
    Triple env (On s Any) (resumeStart cfg rounds request s) fun _ d => env.Careful → Settled d := by
  have hbusy := Shape.busy (s := s) (.inl (by rw [hstatus]; rfl))
  refine triple_bind (triple_stopped hrun) fun stopped => triple_ite (fun _ => ?_) fun _ => triple_dispatchAndWait h hstatus
  split
  · exact triple_fail hbusy
  refine triple_bind (triple_require fun _ hp _ => hp.settled hbusy) fun _ => triple_fact fun _ => ?_
  refine triple_bind (triple_ask (q := .receipt _) on_steady fun _ _ _ h => h.1) fun r => ?_
  split
  · exact triple_fail hbusy
  · exact triple_markInterrupted h
  · exact triple_dispatchAndWait h hstatus

omit hstatus

omit h

/-- The corner is free for a run that has never been begun. -/
structure Free (env : Surroundings) (s : State) (request : RequestId) (d : Disk) : Prop where
  on : On s (fun runs _ => request ∉ runs) d
  released : s.status.released = true
  settled : env.Careful → Settled d

theorem settled_steady : Steady env fun d => env.Careful → Settled d := fun _ _ hs h hcareful => other_settled (hs hcareful) hcareful h

theorem free_steady : Steady env (Free env s request) := fun d d' hp h =>
  ⟨on_steady d d' hp.on h, hp.released, settled_steady d d' hp.settled h⟩

theorem Free.unstopped (h : Free env s request d) (hcareful : env.Careful) : d.stop = none := by
  cases hstop : d.stop with
  | none => rfl
  | some mark =>
    have hbusy := h.settled hcareful (by rw [hstop]; rfl)
    rw [h.on.state, h.released] at hbusy
    cases hbusy

/-- The write-ahead state of a new run. -/
structure Fresh (request : RequestId) (s : State) : Prop where
  shape : Shape s
  status : s.status = .starting
  run : s.rotation_request_id = some request
  identity : s.puyo_program_runtime_identity = none
  announce : ∀ key, s.announce key = none

theorem triple_source (hP : ∀ d, P d → env.Careful → Settled d) :
    Triple env P (source canonical) fun _ d => P d := by
  refine triple_bind (triple_require hP) fun _ => triple_fact fun _ => triple_ite (fun _ => ?_) fun _ => ?_
  · exact triple_bind (triple_require hP) fun _ => triple_pure fun d hp => hp.2
  · split
    · exact triple_raise hP
    · exact triple_pure fun d hp => hp

/-- The state that a new request is begun with. -/
def fresh (request : RequestId) (source : Option ActiveIdentity) (now : ℚ) : State :=
  { status := .starting
    rotation_request_id := some request
    start_request_id := some request
    switch_request_id := some request
    previous_game := source.map ActiveIdentity.game
    previous_runtime_identity := source
    requested_at := some now }

theorem shape_fresh {source : Option ActiveIdentity}
    (hview : source.all (fun i => i.game ≠ VIEW_NAME) = true) : Shape (fresh request source now) := by
  refine ⟨fun _ => rfl, fun _ => ⟨rfl, rfl⟩, fun _ => ⟨rfl, rfl, fun _ => rfl⟩, fun h => ?_, fun h => ?_, fun h => ?_, rfl, fun hgame => ?_⟩
  · cases h
  · cases h
  · cases h
  · obtain ⟨i, rfl, hi⟩ := map_eq_some_iff.mp hgame
    simp [hi] at hview

theorem triple_newState :
    Triple env (Free env s request) (newState request) fun s' d => (∀ new, s' = some new → Fresh request new) ∧ Free env s request d := by
  refine triple_bind (triple_read (triple_ask (q := .canonical) free_steady fun _ _ _ h => h.1) fun _ hp => hp.settled) fun c => ?_
  split
  · exact triple_pure fun d hp => ⟨fun _ h => absurd h (by simp), hp⟩
  refine triple_bind (triple_source fun _ hp => hp.settled) fun source => ?_
  refine triple_bind (triple_require fun _ hp => hp.settled) fun _ => triple_fact fun hview => ?_
  refine triple_bind (triple_ask (q := .clock) free_steady fun _ _ _ h => h) fun now => triple_pure fun d hp => ⟨fun new hnew => ?_, hp⟩
  cases hnew
  exact ⟨shape_fresh hview, rfl, rfl, rfl, fun _ => rfl⟩

theorem beginning_new (h : On s (fun runs _ => request ∉ runs) d) (hk : Known env d)
    (hrun : s'.rotation_request_id = some request) : beginning d s' = request :: d.begun := by
  unfold beginning
  rw [if_neg, hrun]
  · rfl
  · intro heq
    exact h.facts (hk.kept.begun request (heq ▸ hrun))

/-- The first write of a run. -/
theorem triple_saveNew {new : State} (hshape : Shape new) (hrun : new.rotation_request_id = some request)
    (hidentity : new.puyo_program_runtime_identity = none) :
    Triple env (Free env s request) (save new) fun _ d => On new Any d := by
  refine (triple_save free_steady fun d hk hp => ?_).post fun _ d' h => ?_
  · rw [beginning_new hp.on hk hrun]
    refine ⟨⟨hshape, fun run hr => ?_, fun run key htold => ?_, hk.kept.once, fun run i _ hi => ?_, hk.kept.fenced⟩, fun hcareful mark hmark => ?_⟩
    · rw [hrun] at hr
      rw [← some.inj hr]
      exact mem_cons_self
    · have hbegun := (hk.kept.told run key htold).1
      refine ⟨mem_cons_of_mem request hbegun, fun hr => ?_⟩
      rw [hrun] at hr
      rw [← some.inj hr] at hbegun
      exact absurd hbegun hp.on.facts
    · rw [hidentity] at hi
      cases hi
    · rw [hp.unstopped hcareful] at hmark
      cases hmark
  · obtain ⟨d, -, -, rfl⟩ := h
    exact ⟨rfl, trivial⟩

theorem triple_begin : Triple env (Free env s request) (do match ← newState request with
      | none => pure Outcome.queued
      | some state =>
        if ← call (.stopRequested request) then markInterrupted state .operator_stopped_before_start
        else do
          save state
          dispatchAndWait cfg rounds state) fun _ d => env.Careful → Settled d := by
  refine triple_bind triple_newState fun r => triple_fact fun hnew => ?_
  split
  · exact triple_pure fun _ hp => hp.settled
  rename_i new
  have hfresh := hnew new rfl
  refine triple_bind ((triple_stopRequested free_steady (fun d hp hcareful => .inr (hp.unstopped hcareful)) fun d log hp =>
    ⟨⟨hp.on.state, hp.on.facts⟩, hp.released, hp.settled⟩).post fun _ _ h => h.1) fun stopped => triple_ite (fun _ => ?_) fun _ => ?_
  · refine triple_bind (triple_ask (q := .clock) free_steady fun _ _ _ h => h) fun now => ?_
    refine triple_bind (triple_saveNew (same_interrupted hfresh.shape).shape hfresh.run hfresh.identity) fun _ => ?_
    exact triple_bind (triple_clear on_steady) fun _ => triple_pure fun _ h => h
  · refine triple_bind (triple_saveNew hfresh.shape hfresh.run hfresh.identity) fun _ => ?_
    exact triple_dispatchAndWait hfresh.shape hfresh.status

/-- What is known before a call. -/
structure Before (env : Surroundings) (request : RequestId) (d : Disk) : Prop where
  settled : env.Careful → Settled d
  new : d.state.rotation_request_id = some request ∨ request ∉ d.begun

theorem before_steady : Steady env (Before env request) := fun d d' hp h => by
  obtain ⟨hstate, hbegun, -⟩ := other_same h
  exact ⟨settled_steady d d' hp.settled h, by rw [hstate, hbegun]; exact hp.new⟩

theorem triple_readState (hP : Steady env P) (hsettled : ∀ d, P d → env.Careful → Settled d) :
    Triple env P (orRaise (call .readState)) fun s d => d.state = s ∧ Shape s ∧ P d := by
  refine triple_orRaise (triple_call hP fun d x d' hk hp hx => ?_)
  obtain ⟨rfl, rfl | ⟨e, rfl⟩⟩ := hx
  · exact ⟨hk, rfl, hk.kept.shape, hp⟩
  · exact ⟨hk, hsettled _ hp⟩

theorem triple_runRotation :
    Triple env (Before env request) (runRotation cfg rounds request) fun _ d => env.Careful → Settled d := by
  refine triple_bind (triple_readState before_steady fun _ hp => hp.settled) fun s => ?_
  refine Triple.pre (P := fun d => Shape s ∧ d.state = s ∧ Before env request d) (triple_fact fun h => ?_) fun d hp => ⟨hp.2.1, hp.1, hp.2.2⟩
  have hon : ∀ {α : Type} {x : M α}, Triple env (On s Any) x (fun _ d => env.Careful → Settled d) →
      Triple env (fun d => d.state = s ∧ Before env request d) x fun _ d => env.Careful → Settled d :=
    fun hx => Triple.pre hx fun d hp => ⟨hp.1, trivial⟩
  refine triple_ite (fun hrun => ?_) fun hrun => ?_
  · split
    · exact triple_pure fun _ hp => hp.2.settled
    · exact triple_pure fun _ hp => hp.2.settled
    · rename_i hstatus
      exact hon (triple_resumeStart h hstatus hrun)
    · rename_i hstatus
      exact hon (triple_waitAndRestore h hstatus)
    · rename_i hstatus
      exact hon (triple_restore h (by rw [hstatus]; rfl))
    · exact triple_raise fun _ hp => hp.2.settled
  · refine triple_bind (triple_require fun _ hp => hp.2.settled) fun _ => triple_fact fun hreleased => ?_
    refine Triple.pre triple_begin fun d hp => ⟨⟨hp.1, ?_⟩, hreleased, hp.2.settled⟩
    exact hp.2.new.resolve_left (by rw [hp.1]; exact hrun)

/-! ## The reconcilers -/

theorem triple_orFalse {caught : GameSwitch.Exc → Bool} {x : M Bool}
    (hx : Triple env P x fun _ d => env.Careful → Settled d) : Triple env P (orFalse caught x) fun _ d => env.Careful → Settled d := by
  intro d hk hp
  have hcaught : Ensures (world env) (Known env) x.attempt d fun _ d => Known env d ∧ (env.Careful → Settled d) := by
    refine Durable.Owning.ensures_attempt.mpr ((hx d hk hp).mono fun r d' hr => ?_)
    cases r with
    | ok b => exact hr
    | error e => exact hr
  refine hcaught.bind (fun r d' hr => ?_) fun _ _ he => he
  split
  · exact hr
  · split
    · exact hr
    · exact hr
  · exact hr

/-- A reconciler locks the store and reads the state. -/
theorem triple_locked {x : State → M Bool}
    (hx : ∀ s, Shape s → Triple env (fun d => d.state = s ∧ (env.Careful → Settled d)) (x s) fun _ d => env.Careful → Settled d) :
    Triple env (fun d => env.Careful → Settled d) (do
      if ← call .lockStore then do
        let state ← orRaise (call .readState)
        x state
      else pure false) fun _ d => env.Careful → Settled d := by
  refine triple_bind (triple_ask (q := .lockStore) settled_steady fun _ _ _ h => h) fun locked => triple_ite (fun _ => ?_) fun _ => ?_
  · refine triple_bind (triple_readState settled_steady fun _ hp => hp) fun s => ?_
    exact Triple.pre (P := fun d => Shape s ∧ d.state = s ∧ (env.Careful → Settled d)) (triple_fact (hx s)) fun d hp =>
      ⟨hp.2.1, hp.1, hp.2.2⟩
  · exact triple_pure fun _ hp => hp

theorem triple_reconcileFailedStart :
    Triple env (fun d => env.Careful → Settled d) (reconcileFailedStart request) fun _ d => env.Careful → Settled d := by
  refine triple_orFalse (triple_locked fun s h => triple_ite (fun hstatus => ?_) fun _ => triple_pure fun _ hp => hp.2)
  have hbusy : s.status.released = false := by rcases hstatus.1 with hs | hs <;> rw [hs] <;> rfl
  refine Triple.pre (P := On s Any) ?_ fun d hp => ⟨hp.1, trivial⟩
  refine triple_bind (triple_read (triple_ask (q := .receipt _) on_steady fun _ _ _ h => h.1) fun _ hp _ => hp.settled hbusy) fun receipt => ?_
  refine triple_bind (triple_read (triple_ask (q := .loadCanonical) on_steady fun _ _ _ h => h.1) fun _ hp _ => hp.settled hbusy)
    fun canonical => ?_
  split
  · refine triple_ite (fun _ => ?_) fun _ => triple_pure fun d hp _ => hp.settled hbusy
    exact triple_end (fun _ => same_interrupted h) fun _ => rfl
  · exact triple_pure fun d hp _ => hp.settled hbusy

theorem triple_settleReleasedFailure :
    Triple env (fun d => env.Careful → Settled d) (settleReleasedFailure request) fun _ d => env.Careful → Settled d := by
  refine triple_orFalse (triple_locked fun s h => triple_ite (fun hstatus => ?_) fun _ => triple_pure fun _ hp => hp.2)
  have hbusy : s.status.released = false := by rw [hstatus.1]; rfl
  refine Triple.pre (P := On s Any) ?_ fun d hp => ⟨hp.1, trivial⟩
  refine triple_bind (triple_read (triple_ask (q := .loadCanonical) on_steady fun _ _ _ h => h.1) fun _ hp _ => hp.settled hbusy)
    fun canonical => ?_
  split
  · exact triple_pure fun d hp _ => hp.settled hbusy
  refine triple_ite (fun _ => ?_) fun _ => triple_pure fun d hp _ => hp.settled hbusy
  refine triple_bind (triple_read (triple_ask (q := .receipt _) on_steady fun _ _ _ h => h.1) fun _ hp _ => hp.settled hbusy) fun receipt => ?_
  refine triple_ite (fun _ => ?_) fun _ => triple_pure fun d hp _ => hp.settled hbusy
  refine triple_bind (triple_read (triple_ask (q := .queued) on_steady fun _ _ _ h => h.1) fun _ hp _ => hp.settled hbusy) fun queued => ?_
  refine triple_ite (fun _ => triple_pure fun d hp _ => hp.settled hbusy) fun _ => ?_
  exact triple_end (fun _ => ⟨h.released rfl rfl rfl, rfl, fun _ h => h⟩) fun _ => rfl

/-! ## All runs -/

theorem triple_program {k : Call} :
    Triple env (fun d => (env.Careful → Settled d) ∧ mayStart k d) (program k) fun _ d => env.Careful → Settled d := by
  cases k with
  | run cfg rounds request =>
    refine triple_bind (Triple.pre triple_runRotation fun d hp => ⟨hp.1, hp.2⟩) fun outcome => ?_
    exact triple_pure fun _ hp => hp
  | reconcile request => exact Triple.pre triple_reconcileFailedStart fun _ hp => hp.1
  | settle request => exact Triple.pre triple_settleReleasedFailure fun _ hp => hp.1

theorem disturbed : Durable.Owning.Disturbed (world env) (Known env) fun d => env.Careful → Settled d :=
  ⟨fun _ _ => other_known, fun d d' _ => settled_steady d d'⟩

theorem reach_sound {s : Sys} (h : Reach env s) : Durable.Owning.Sound (world env) (Known env) (fun d => env.Careful → Settled d) s := by
  obtain ⟨plane, h⟩ := h
  refine Durable.Owning.Reach.sound ⟨kept_empty, fun _ => ⟨fun mark hmark => ?_, fun run mark hmem => absurd hmem not_mem_nil⟩⟩
    (fun _ hstop => ?_) disturbed (fun d _ hdie hcareful => hcareful.breaks d hdie) (fun k d hk hs hstart => ?_) h
  · cases hmark
  · cases hstop
  · refine (triple_program d hk ⟨hs, hstart⟩).mono fun r d' hr => ?_
    cases r with
    | ok b => exact hr.2
    | error e => exact hr.2

end Docich.PuyoProgram
