import Docich.HanjukuWager.Rounds

/-!
# Runs of the wager

- `does_advance`, `keeps_code`: what a tick and every process keep;
- `wager_kept`: what is promised holds after every run of careful steps;
- `reached_canceled`: a run that cancels a round whose resume target is reached.
-/

namespace Docich.HanjukuWager

open Durable.Locks List Option
open Durable.Locks.Work (throw get modify ask ofExcept handle locking)
open Predictions (Text isText)
open Wire (Json)

/-! ## Ticks -/

section Ticks

variable {str : Json → Text} {cfg : Config} {identity : Option Identity} {now : ℚ}

/-- The memory has the stored round. -/
def Loaded (s : State) (d : Disk) : Prop := Sound s d ∧ d.stored = s.round

theorem loose_loaded : Loose Loaded := fun _ _ _ _ ho hp => ⟨hp.1.onward ho, ho.stored.trans hp.2⟩

theorem checkedResult_cleared {r : Result} {i : Identity} (h : checkedResult r i = true) :
    (r.cleared.getD 0) ≤ MAX_CHAPTER := by
  simp only [checkedResult, Bool.and_eq_true, Option.all_eq_true, decide_eq_true_eq] at h
  cases hc : r.cleared with
  | none => simp
  | some n => exact h.2 n hc

variable {d : Disk} {s : State}

theorem Sound.result_cleared (h : Sound s d) {row : Round} (hr : s.round = some row) {r : Result}
    (he : row.result = some r) : checkedResult r row.identity = true := by
  have hc := h.checked hr
  simp only [checkRound, Bool.and_eq_true, he, all_some] at hc
  exact hc.2

/-- The durable result of a round that is not done. -/
structure OwnedBy (row : Option Round) (r : Option Result) (d : Disk) : Prop where
  checked : ∀ v, r = some v → ∃ q, row = some q ∧ q.status.done = false ∧ checkedResult v q.identity = true ∧
    q.identity ∈ d.finished
  kept : ∀ q v, row = some q → q.status.done = false → q.result = some v → r = some v

theorem does_completedResult (row : Option Round) : Does str (fun s d => s.round = row ∧ Loaded s d)
    (completedResult (row.bind Round.result) identity) fun r s d => (s.round = row ∧ Loaded s d) ∧
      ∀ v, r = some v → v.cleared.getD 0 ≤ MAX_CHAPTER := by
  have hloose : Loose fun s d => s.round = row ∧ Loaded s d :=
    fun s d d' hk ho hp => ⟨hp.1, loose_loaded s d d' hk ho hp.2⟩
  have hresult (i : Identity) : Does str (fun s d => s.round = row ∧ Loaded s d) (result i) fun r s d =>
      (s.round = row ∧ Loaded s d) ∧ ∀ v, r = some v → v.cleared.getD 0 ≤ MAX_CHAPTER :=
    (does_result hloose fun s d hp => hp.2.1).post (fun r s d hp => ⟨hp.1, fun v hv => checkedResult_cleared (hp.2 v hv).1⟩) fun _ _ _ hx => hx
  unfold completedResult
  split
  · exact triple_pure fun s d hp => ⟨hp, nofun⟩
  · split
    · next r hcached =>
      refine triple_ite (fun _ => triple_pure fun s d hp => ⟨hp, fun v hv => ?_⟩) fun _ => hresult _
      cases hv
      obtain ⟨q, hq, hr⟩ := bind_eq_some_iff.mp hcached
      exact checkedResult_cleared (hp.2.1.result_cleared (hp.1.trans hq) hr)
    · exact hresult _

theorem does_ownedResult (row : Option Round) : Does str (fun s d => s.round = row ∧ Loaded s d) (ownedResult row)
    fun r s d => (s.round = row ∧ Loaded s d) ∧ OwnedBy row r d := by
  have hloose : Loose fun s d => s.round = row ∧ Loaded s d :=
    fun s d d' hk ho hp => ⟨hp.1, loose_loaded s d d' hk ho hp.2⟩
  cases row with
  | none => exact triple_pure fun s d hp => ⟨hp, nofun, nofun⟩
  | some row =>
    refine triple_ite (fun hdone => triple_pure fun s d hp => ⟨hp, nofun, fun q r hq hlive => ?_⟩) fun hlive => ?_
    · cases hq
      rw [hdone] at hlive
      cases hlive
    · have hlive : row.status.done = false := by simpa using hlive
      split
      · next r hr =>
        refine triple_pure fun s d hp => ⟨hp, fun v hv => ?_, fun q v hq _ hv => ?_⟩
        · cases hv
          exact ⟨row, rfl, hlive, hp.2.1.result_cleared hp.1 hr, hp.2.1.round.finished row hp.1 (by simp [hr])⟩
        · cases hq
          rw [← hv, hr]
      · next hr =>
        refine (does_result hloose fun s d hp => hp.2.1).post (fun r s d hp => ⟨hp.1, fun v hv => ?_,
          fun q v hq _ hv => ?_⟩) fun _ _ _ hx => hx
        · obtain ⟨hc, ho⟩ := hp.2 v hv
          exact ⟨row, rfl, hlive, hc, ho⟩
        · cases hq
          rw [hr] at hv
          cases hv

/-- What a tick knows after a look at the target of its round. -/
structure Looked (row : Option Round) (owned : Option Result) (reached : Bool) (s : State) (d : Disk) : Prop where
  memory : s.round = row
  loaded : Loaded s d
  own : OwnedBy row owned d
  met : reached = true → ∀ q, row = some q → q.status.done = false → q.Reached (d.cleared q.identity)
  unmet : reached = false → ∀ q, row = some q → q.status.done = false → owned.isSome = true →
    ¬ q.Reached (d.cleared q.identity) ∧ q.identity ∈ d.finished

variable {row : Option Round} {reached : Bool} {r owned : Option Result}

theorem OwnedBy.onward {d' : Disk} (h : OwnedBy row r d) (ho : Onward d d') :
    OwnedBy row r d' where
  checked v hv := by
    obtain ⟨q, hq, hlive, hc, hover⟩ := h.checked v hv
    exact ⟨q, hq, hlive, hc, ho.finished _ hover⟩
  kept := h.kept

theorem loose_looked : Loose (Looked row owned reached) :=
  fun s d d' hk ho hp => ⟨hp.memory, loose_loaded s d d' hk ho hp.loaded, hp.own.onward ho,
    fun hr q hq hlive => ho.reached (hp.met hr q hq hlive), fun hr q hq hlive hs =>
      have h := hp.unmet hr q hq hlive hs
      ⟨unreached_onward ho (hp.loaded.2.trans (hp.memory.trans hq)) hlive (.inr h.2) h.1, ho.finished _ h.2⟩⟩

theorem does_rowReached (row : Option Round) (owned : Option Result) :
    Does str (fun s d => (s.round = row ∧ Loaded s d) ∧ OwnedBy row owned d) (rowReached row) fun reached s d =>
      Looked row owned reached s d := by
  have hloose : Loose fun s d => (s.round = row ∧ Loaded s d) ∧ OwnedBy row owned d := fun s d d' hk ho hp =>
    ⟨⟨hp.1.1, loose_loaded s d d' hk ho hp.1.2⟩, hp.2.onward ho⟩
  cases row with
  | none => exact triple_pure fun s d hp => ⟨hp.1.1, hp.1.2, hp.2, nofun, fun _ q hq => nomatch hq⟩
  | some row =>
    refine triple_ite (fun hdone => triple_pure fun s d hp => ⟨hp.1.1, hp.1.2, hp.2, nofun, fun _ q hq hlive => ?_⟩)
      fun hlive => ?_
    · cases hq
      rw [hdone] at hlive
      cases hlive
    · refine triple_ite (fun hkind => ?_) fun hkind => triple_pure fun s d hp => ⟨hp.1.1, hp.1.2, hp.2, nofun,
        fun _ q hq _ hs => ?_⟩
      · refine triple_bind (does_completedCount hloose.steady fun s d hp => hp.1.2.1) fun cleared => triple_pure
          fun s d hp => ⟨hp.1.1.1, hp.1.1.2, hp.1.2, fun hr q hq _ => ?_, fun hr q hq _ hs => ?_⟩
        · cases hq
          obtain ⟨n, hn, hle⟩ := (any_eq_true _ _).mp hr
          exact ⟨hkind, n, hp.2.1 ▸ hn, by simpa using hle⟩
        · cases hq
          obtain ⟨v, hv⟩ := isSome_iff_exists.mp hs
          obtain ⟨q, hq, -, -, hover⟩ := hp.1.2.checked v hv
          cases hq
          refine ⟨fun ⟨_, n, hn, hle⟩ => ?_, hover⟩
          rw [hp.2.1, hn] at hr
          simp [hle] at hr
      · cases hq
        obtain ⟨v, hv⟩ := isSome_iff_exists.mp hs
        obtain ⟨q, hq, -, -, hover⟩ := hp.2.checked v hv
        cases hq
        exact ⟨fun h => hkind h.1, hover⟩

/-- The round with its durable result. -/
def Round.keeping (owned : Option Result) (row : Round) : Round :=
  if owned.isSome then { row with result := owned } else row

theorem keeping_fields (owned : Option Result) (row : Round) : (row.keeping owned).identity = row.identity ∧
    (row.keeping owned).kind = row.kind ∧ (row.keeping owned).target = row.target ∧
    (row.keeping owned).status = row.status ∧ (row.keeping owned).attempted = row.attempted := by
  unfold Round.keeping
  split <;> simp

/-- What a tick knows when the result of its round is stored. -/
structure Ready (row : Option Round) (reached : Bool) (s : State) (d : Disk) : Prop where
  sound : Sound s d
  memory : s.round = row
  stored : d.stored = row
  met : reached = true → ∀ q, row = some q → q.status.done = false → q.Reached (d.cleared q.identity)
  unmet : reached = false → ∀ q, row = some q → q.status.done = false → q.result.isSome = true →
    ¬ q.Reached (d.cleared q.identity) ∧ q.identity ∈ d.finished

theorem loose_ready : Loose (Ready row reached) :=
  fun _ _ _ _ ho hp => ⟨hp.sound.onward ho, hp.memory, ho.stored.trans hp.stored,
    fun hr q hq hlive => ho.reached (hp.met hr q hq hlive), fun hr q hq hlive hs =>
      have h := hp.unmet hr q hq hlive hs
      ⟨unreached_onward ho (hp.stored.trans hq) hlive (.inr h.2) h.1, ho.finished _ h.2⟩⟩

/-- The round in memory has its durable result, the stored one may not. -/
def Keeping (row : Option Round) (owned : Option Result) (reached : Bool) (s : State) (d : Disk) : Prop :=
  (Sound s d ∧ s.round = row.map (Round.keeping owned)) ∧ ∃ s₀, Looked row owned reached s₀ d

theorem does_keepResult (row : Option Round) (owned : Option Result) (reached : Bool) :
    Does str (Looked row owned reached) (keepResult owned) fun _ s d => Keeping row owned reached s d := by
  refine triple_ite (fun hs => triple_modify fun s d _ hp => ⟨⟨?_, ?_⟩, s, hp⟩) fun hs => triple_pure fun s d hp =>
    ⟨⟨hp.loaded.1, ?_⟩, s, hp⟩
  · refine map_sound hp.loaded.1 fun q hq => ?_
    obtain ⟨v, hv⟩ := isSome_iff_exists.mp hs
    obtain ⟨q', hq', -, hc, hover⟩ := hp.own.checked v hv
    obtain rfl := some.inj ((hp.memory.symm.trans hq).symm.trans hq')
    refine hp.loaded.1.row hq ?_ rfl (fun _ => hover) fun ha => ha
    have hchecked := hp.loaded.1.checked hq
    simp only [checkRound, Bool.and_eq_true, hv, all_some] at hchecked ⊢
    exact ⟨hchecked.1, hc⟩
  · have hfun : Round.keeping owned = fun row => { row with result := owned } := by
      funext q
      rw [Round.keeping, if_pos hs]
    rw [hp.memory, hfun]
  · have hfun : Round.keeping owned = fun row => row := by
      funext q
      rw [Round.keeping, if_neg hs]
    rw [hp.memory, hfun]
    simp

/-- The durable result is stored with the round. -/
theorem does_saveKeeping (row : Option Round) (owned : Option Result) (reached : Bool) :
    Does str (Keeping row owned reached) saveLedger fun _ s d => Ready (row.map (Round.keeping owned)) reached s d := by
  refine does_saveLedger ?_ (fun s d hp => hp.1.1) fun s d _ hp => ?_
  · exact fun s d d' hk ho _ _ hp =>
      ⟨⟨hp.1.1.onward ho, hp.1.2⟩, hp.2.elim fun s₀ h => ⟨s₀, loose_looked s₀ d d' hk ho h⟩⟩
  · obtain ⟨⟨hsound, hmemory⟩, s₀, hlooked⟩ := hp
    refine ⟨hsound.congr rfl rfl rfl rfl, hmemory, hmemory,
      fun hr q hq hlive => ?_, fun hr q hq hlive hs => ?_⟩
    · obtain ⟨q₀, hq₀, rfl⟩ := map_eq_some_iff.mp hq
      obtain ⟨hi, hk, ht, hst, -⟩ := keeping_fields owned q₀
      have hmet := hlooked.met hr q₀ hq₀ (hst ▸ hlive)
      rw [hi]
      exact ⟨hk ▸ hmet.1, ht ▸ hmet.2⟩
    · obtain ⟨q₀, hq₀, rfl⟩ := map_eq_some_iff.mp hq
      obtain ⟨hi, hk, ht, hst, -⟩ := keeping_fields owned q₀
      have hlive : q₀.status.done = false := hst ▸ hlive
      have howned : owned.isSome = true := by
        by_contra hno
        rw [Round.keeping, if_neg hno] at hs
        obtain ⟨v, hv⟩ := isSome_iff_exists.mp hs
        rw [hlooked.own.kept q₀ v hq₀ hlive hv] at hno
        exact hno rfl
      have hunmet := hlooked.unmet hr q₀ hq₀ hlive howned
      rw [hi]
      exact ⟨fun h => hunmet.1 ⟨hk ▸ h.1, ht ▸ h.2⟩, hunmet.2⟩

/-- What a tick knows when it has read the canonical state. -/
structure Seen (row : Option Round) (reached : Bool) (canonical : Canonical) (s : State) (d : Disk) : Prop where
  ready : Ready row reached s d
  lost : ∀ q, row = some q → q.status.done = false → q.result = none → canonical.ready = true →
    canonical.active ≠ some q.identity → ¬ q.Reached (d.cleared q.identity) ∧ q.identity ∈ d.past
  owner : ∀ i, canonical.active = some i → Current d i ∧ ∀ q, row = some q → q.identity = i ∨ q.identity ∈ d.past

variable {canonical : Canonical}

theorem loose_seen : Loose (Seen row reached canonical) :=
  fun s d d' hk ho hp => ⟨loose_ready s d d' hk ho hp.ready, fun q hq hlive hr hready hne =>
      have h := hp.lost q hq hlive hr hready hne
      ⟨unreached_onward ho (hp.ready.stored.trans hq) hlive (.inl h.2) h.1, ho.past _ h.2⟩,
    fun i hi => ⟨ho.Current (hp.owner i hi).1, fun q hq => ((hp.owner i hi).2 q hq).imp_right (ho.past _)⟩⟩

theorem Ready.seen (h : Ready row reached s d)
    (hc : Careful .canonical d (.ok d.canonical)) : Seen row reached d.canonical s d := by
  have hcurrent : ∀ q, row = some q → Current d q.identity := fun q hq => h.sound.round.current q (h.memory.trans hq)
  refine ⟨h, fun q hq hlive hr hready hne => ⟨fun hreached => ?_, ?_⟩, fun i hi => ⟨.inl hi, fun q hq => ?_⟩⟩
  · exact hc q ⟨h.stored.trans hq, hlive, hreached.1⟩ hr hready hne hreached
  · exact (hcurrent q hq).resolve_left hne
  · exact (hcurrent q hq).imp_left fun ha => some.inj (ha.symm.trans hi)

theorem does_seen : Does str (Ready row reached) readCanonical fun canonical s d => Seen row reached canonical s d :=
  (does_readCanonical loose_ready.steady fun s d hp => hp.sound).post (fun c s d hp => by
      obtain ⟨hready, -, rfl, hc⟩ := hp
      exact hready.seen hc) fun _ _ _ hx => hx

theorem Ready.mode (h : Ready row reached s d)
    (mode : Mode) : Sound { s with mode := mode } d := h.sound.mode mode

/-- A round of which the tick has seen everything. -/
theorem Seen.viewing {row : Round}
    (h : Seen (some row) reached canonical s d) (hlive : row.status.done = false) :
    Viewing ⟨now, reached, canonical.ready, canonical.active = some row.identity⟩ row s d := by
  refine ⟨h.ready.sound, h.ready.memory, h.ready.stored, hlive, fun hr => h.ready.met hr row rfl hlive, fun hl => ?_⟩
  rcases hl with ⟨hr, hs⟩ | ⟨hready, hsame, hnone⟩
  · exact (h.ready.unmet hr row rfl hlive hs).imp_right .inr
  · exact (h.lost row rfl hlive hnone hready (by simpa using hsame)).imp_right .inl

/-- The canonical run may open a round. -/
theorem does_owner {i : Identity} {live paused : Bool}
    (hlive : live = true → canonical.active = some i) (hchecked : i.checked = true) :
    Does str (Seen row reached canonical) (if live then openRound cfg i paused else pure ())
      fun _ s d => Sound s d := by
  refine triple_ite (fun hl => (does_openRound paused).pre fun s d hp => ?_) fun _ => triple_pure fun s d hp =>
    hp.ready.sound
  obtain ⟨hcurrent, hold⟩ := hp.owner i (hlive hl)
  exact ⟨hp.ready.sound, hchecked, hcurrent, fun q hq => hold q (hp.ready.memory.symm.trans hq)⟩

theorem Sound.completed (h : Sound s d)
    (hr : ∀ v, r = some v → v.cleared.getD 0 ≤ MAX_CHAPTER) : Sound (s.completed r) d := by
  refine ⟨?_, h.round⟩
  have hacc := h.accepted
  simp only [checkState, Bool.and_eq_true, decide_eq_true_eq] at hacc ⊢
  refine ⟨⟨⟨max_le hacc.1.1.1 ?_, hacc.1.1.2⟩, hacc.1.2⟩, hacc.2⟩
  cases r with
  | none => simp
  | some v => exact hr v rfl

/-- The completions raise the record. -/
theorem does_completed {completed : Option Result} :
    Does str (fun s d => ((s.round = row ∧ Loaded s d) ∧ ∀ v, completed = some v → v.cleared.getD 0 ≤ MAX_CHAPTER) ∧
      OwnedBy row owned d) (modify fun s => (s.completed completed).completed owned)
        fun _ s d => (s.round = row ∧ Loaded s d) ∧ OwnedBy row owned d := by
  refine triple_modify fun s d _ hp => ⟨⟨hp.1.1.1, ?_, hp.1.1.2.2⟩, hp.2⟩
  refine (hp.1.1.2.1.completed hp.1.2).completed fun v hv => ?_
  obtain ⟨q, -, -, hc, -⟩ := hp.2.checked v hv
  exact checkedResult_cleared hc

theorem does_advance (hnow : 0 ≤ now) (hchecked : identity.all Identity.checked = true) :
    Does str Loaded (advance str cfg identity now) fun _ s d => Sound s d := by
  refine triple_get fun v => ?_
  have howned (completed : Option Result) : Does str
      (fun s d => (s.round = v.round ∧ Loaded s d) ∧ ∀ r, completed = some r → r.cleared.getD 0 ≤ MAX_CHAPTER)
      (ownedResult v.round) fun owned s d => ((s.round = v.round ∧ Loaded s d) ∧
        ∀ r, completed = some r → r.cleared.getD 0 ≤ MAX_CHAPTER) ∧ OwnedBy v.round owned d := by
    refine does_given (fun s d hp => hp.2) fun hcompleted => ?_
    exact (does_ownedResult v.round).mono (fun s d hp => hp.1) (fun r s d hp => ⟨⟨hp.1, hcompleted⟩, hp.2⟩)
      fun _ _ _ hx => hx
  refine triple_bind ((does_completedResult v.round).pre fun s d hp => ⟨hp.1 ▸ rfl, hp.2⟩) fun completed =>
    triple_bind (howned completed) fun owned => triple_bind does_completed fun _ =>
    triple_bind (does_rowReached v.round owned) fun reached => ?_
  generalize hsettlement : (owned.isSome && v.round.any (·.result.isNone) || reached) = new_settlement
  refine triple_bind (does_keepResult v.round owned reached) fun _ =>
    triple_bind (does_saveKeeping v.round owned reached) fun _ => ?_
  generalize v.round.map (Round.keeping owned) = row
  refine triple_get fun w => Triple.pre (P := Ready row reached) ?_ fun s d hp => hp.2
  refine triple_ite (fun _ => does_throw fun s d hp => hp.sound) fun _ => triple_ite
    (fun _ => triple_pure fun s d hp => hp.sound) fun _ => triple_ite (fun _ => triple_pure fun s d hp => hp.sound)
    fun _ => ?_
  have hpoll : Does str (Ready row reached)
      (modify fun s => { s with last_poll_at := now, next_poll_at := now + POLL_SECONDS, error := none })
      fun _ s d => Ready row reached s d := by
    refine triple_modify fun s d _ hp => ⟨hp.sound.with_round rfl rfl ?_ hnow, hp.memory, hp.stored, hp.met, hp.unmet⟩
    have hpoll : (0 : ℚ) ≤ POLL_SECONDS := by decide
    exact add_nonneg hnow hpoll
  refine triple_bind hpoll fun _ => triple_ite (fun _ => does_setMode (fun s d mode hp => hp.mode mode) .disabled)
    fun _ => triple_bind (does_clientFactory loose_ready fun s d hp => hp.sound) fun unavailable => ?_
  cases unavailable with
  | some unavailable => exact does_setMode (fun s d mode hp => hp.mode mode) unavailable
  | none =>
    refine triple_bind does_seen fun canonical => triple_bind (does_isPaused loose_seen) fun paused =>
      triple_get fun u => does_given (fun s d hp => hp.1 ▸ hp.2.ready.memory) fun hround =>
      Triple.pre (P := Seen row reached canonical) ?_ fun s d hp => hp.2
    rw [hround]
    have howner : ∀ i, identity = some i → Does str (Seen row reached canonical)
        (if (identity.isSome && canonical.ready && canonical.active = identity && completed.isNone) = true then
          openRound cfg i paused else pure ()) fun _ s d => Sound s d := by
      rintro i rfl
      refine does_owner (fun hl => ?_) (by simpa using hchecked)
      simp only [Bool.and_eq_true, decide_eq_true_eq] at hl
      exact hl.1.2
    have hnobody : Does str (Seen row reached canonical) (identity.elim (pure ()) fun identity' =>
        if (identity.isSome && canonical.ready && canonical.active = identity && completed.isNone) = true then
          openRound cfg identity' paused
        else pure ()) fun _ s d => Sound s d := by
      cases identity with
      | none => exact triple_pure fun s d hp => hp.ready.sound
      | some i => exact howner i rfl
    cases row with
    | none => cases identity <;> exact hnobody
    | some row =>
      refine triple_ite (fun hlive => ?_) fun _ => by cases identity <;> exact hnobody
      exact (does_settle _ paused).pre fun s d hp => hp.viewing (by simpa using hlive)

end Ticks

/-! ## Under the lock -/

section Tick

variable {str : Json → Text} {cfg : Config} {identity : Option Identity} {now : ℚ}

/-- What was loaded may be saved again. -/
theorem Known.loaded {d : Disk} (h : Known d) {s : State} (hl : load cfg.seed d.ledger = .ok s) : Loaded s d := by
  unfold load at hl
  split at hl
  · next hnone =>
    cases hl
    have hstored : d.stored = none := by rw [Disk.stored, hnone, bind_none]
    refine ⟨⟨?_, hstored ▸ h.round⟩, hstored⟩
    simpa [checkState] using cfg.seed_le
  · next state hsome =>
    split at hl
    · next hcheck =>
      cases hl
      have hstored : d.stored = state.round := by rw [Disk.stored, hsome, bind_some]
      refine ⟨⟨?_, hstored ▸ h.round⟩, hstored⟩
      simp only [checkState, Bool.and_eq_true, decide_eq_true_eq] at hcheck ⊢
      exact ⟨⟨⟨max_le cfg.seed_le hcheck.1.1.1, hcheck.1.1.2⟩, hcheck.1.2⟩, hcheck.2⟩
    · cases hl

/-- The error of a tick is saved, too. -/
theorem Sound.failed {s : State} {d : Disk} (h : Sound s d) (hnow : 0 ≤ now) (e : Exc) :
    Sound { s with mode := .error, error := some e.code, next_poll_at := now + RETRY_SECONDS } d := by
  have hretry : (0 : ℚ) ≤ RETRY_SECONDS := by decide
  exact h.with_round rfl rfl (add_nonneg hnow hretry) h.polls.2

/-- What a part does that leaves the memory behind when it raises. -/
abbrev Keeps {α : Type} (str : Json → Text) (h : Held Lock) (P : State → Disk → Prop) (m : Work α)
    (R : α → State → Disk → Prop) : Prop :=
  Triple (careful str) contract h P m R fun _ _ _ => True

theorem Does.keeps {P : State → Disk → Prop} {α : Type} {m : Work α} {R : α → State → Disk → Prop}
    (h : Does str P m R) : Keeps str held P m R := h.raising fun _ _ _ _ => trivial

/-- Under the lock, from any memory. -/
theorem keeps_guarded (hnow : 0 ≤ now) (hchecked : identity.all Identity.checked = true) :
    Keeps str held (fun _ _ => True) (guarded str cfg identity now) fun _ _ _ => True := by
  have hload : Keeps str held (fun _ _ => True) (ask .load) fun x _ d => Known d ∧ Answers d.ledger x :=
    does_ask (fun _ _ _ _ _ _ _ hp => hp) fun s d x d' hk _ hx _ => by
      obtain ⟨rfl, hx⟩ := hx
      exact ⟨hk, hk, hx⟩
  have hread (x : Except Exc (Option State)) : Keeps str held (fun _ d => Known d ∧ Answers d.ledger x) (ofExcept x)
      fun state _ d => Known d ∧ state = d.ledger := by
    refine triple_ofExcept (fun a ha s d hp => ⟨hp.1, ?_⟩) fun _ _ _ _ _ => trivial
    rcases hp.2 with he | he <;> rw [ha] at he <;> cases he
    rfl
  have hcheck (state : Option State) : Keeps str held (fun _ d => Known d ∧ state = d.ledger)
      (ofExcept (load cfg.seed state)) fun s _ d => Loaded s d :=
    triple_ofExcept (fun s hs _ d hp => hp.1.loaded (hp.2 ▸ hs)) fun _ _ _ _ _ => trivial
  refine triple_bind hload fun x => triple_bind (hread x) fun ledger => triple_bind (hcheck ledger) fun state => ?_
  refine triple_bind (R := fun _ s d => Loaded s d) (triple_modify fun _ _ _ hp => hp) fun _ => ?_
  have hadvance : Does str Loaded (handle (advance str cfg identity now) fun e =>
      modify fun s => { s with mode := .error, error := some e.code, next_poll_at := now + RETRY_SECONDS })
        fun _ s d => Sound s d :=
    triple_handle (does_advance hnow hchecked) fun e => triple_modify fun s d _ hp => hp.failed hnow e
  refine triple_bind (Does.keeps hadvance) fun _ => ?_
  exact does_saveSound.post (fun _ _ _ _ => trivial) fun _ _ _ _ => trivial

def free : Held Lock := fun _ => false

/-- A call without the lock. -/
theorem keeps_ask {q : Ask} (hq : ∀ d x d', Known d → perform str q d x d' → Careful q d x → Known d' ∧ Env d d') :
    Keeps str free (fun _ _ => True) (ask q) fun _ _ _ => True :=
  triple_ask (fun _ _ _ _ _ _ _ _ => trivial) fun _ d x d' hk _ hx =>
    have h := hq d x d' hk hx.1 hx.2
    ⟨⟨h.1, fun _ => h.2⟩, trivial⟩

theorem keeps_tick (hnow : 0 ≤ now) (hchecked : identity.all Identity.checked = true) :
    Keeps str free (fun _ _ => True) (tick str cfg identity now) fun _ _ _ => True := by
  have hlocked : Keeps str free (fun _ _ => True) (locking .predictions (guarded str cfg identity now) (pure ()))
      fun _ _ _ => True :=
    triple_locking rfl (fun _ _ _ _ _ _ _ _ => trivial) (fun _ => triple_pure fun _ _ _ => trivial)
      (keeps_guarded hnow hchecked)
  have hexists : Keeps str free (fun _ _ => True) (ask .exists_) fun _ _ _ => True :=
    keeps_ask fun d x d' hk hx _ => by
      obtain ⟨rfl, -⟩ := hx
      exact ⟨hk, .inl rfl⟩
  refine triple_ite (fun _ => triple_bind hexists fun present => ?_) fun _ => hlocked
  exact triple_ite (fun _ => hlocked) fun _ => triple_pure fun _ _ _ => trivial

theorem keeps_code (k : Call) (d : Disk) (hk : Known d) :
    Ensures (careful str) contract (code str k) free d fun _ _ _ => True := by
  have hwork : Keeps str free (fun _ _ => True) (k.work str) fun _ _ _ => True := by
    cases k with
    | tick cfg identity now =>
      exact triple_ite (fun hc => keeps_tick hc.1 hc.2) fun _ => triple_fail
    | change c =>
      exact keeps_ask fun d x d' hk hx hcare => ⟨hk.onward (hk.change hx hcare), .inr ⟨c, hx, hcare⟩⟩
  exact (hwork blank d hk trivial).mono fun _ _ _ _ => trivial

end Tick

/-! ## Runs -/

/-- A step or many. -/
abbrev Wagers : Type := Sys Lock Ask Ask.Answer (State × Exc) Call (State × Unit) Disk

theorem Disk.Fresh.known {d : Disk} (h : d.Fresh) : Known d where
  once := by
    rw [h.log]
    refine ⟨fun _ _ hmem => absurd hmem not_mem_nil, fun later row earlier he => ?_⟩
    exact absurd (append_eq_nil_iff.mp he.symm).2 (cons_ne_nil _ _)
  faithful e he := absurd (h.log ▸ he) not_mem_nil
  accepted state hs := by
    rw [h.ledger] at hs
    cases hs
  round := by
    have hstored : d.stored = none := by rw [Disk.stored, h.ledger, bind_none]
    rw [hstored]
    exact ⟨nofun, nofun, fun row hrow => absurd (h.log ▸ hrow) not_mem_nil⟩
  created row rejected hrow := absurd (h.log ▸ hrow) not_mem_nil
  fresh i _ := by simp [h.past]
  cleared := h.cleared

theorem Known.kept {d : Disk} (h : Known d) : Kept d where
  loads state hs seed := ⟨_, by rw [load, if_pos (h.accepted state hs)]⟩
  once := h.once
  faithful := h.faithful

/-- After careful steps the wager was opened once, and settled by the truth. -/
theorem wager_kept (str : Json → Text) {d₀ : Disk} (h₀ : d₀.Fresh) {s : Wagers}
    (h : Sys.Reach (careful str) (code str) (Sys.start d₀) s) : Kept s.data :=
  have hsound : Sys.Sound (careful str) contract (fun _ _ _ _ => True) s := Sys.Reach.sound h₀.known keeps_code h
  hsound.known.kept

/-! ## Runs that are computed -/

def runA : Identity := ⟨"g1-aaaaaa".toList, 1, "l".toList⟩

def runB : Identity := ⟨"g2-bbbbbb".toList, 2, "m".toList⟩

def nothingWagered : Disk where
  ledger := none
  results _ := none
  canonical := ⟨true, some runA⟩
  past := []
  cleared _ := none
  finished := []
  snapshots _ := none
  leaderboard := []
  listed := []
  log := []

theorem nothingWagered_fresh : nothingWagered.Fresh := ⟨rfl, rfl, rfl, nofun⟩

def wagerNonce : Text := "000000000000".toList

/-- The prediction of the wager on the third chapter, without counts. -/
def chapterRow (status : Status) : Remote where
  id := "p".toList
  title := resumeTitleOf 3 wagerNonce
  status := status
  outcomes := (resumeOutcomeTitles 3).zipWith (fun t id => ⟨[id], t, none, none, none⟩) ['x', 'y', 'z']
  winning_outcome_id := none
  ended_at := none

/-- The run of the tick was resumed at the third chapter, and has no terminal evidence; the API lists the given
predictions and does what it is asked. -/
def answers (rows : List Remote) : Sys.Server Ask Ask.Answer Disk
  | .exists_, d => some (d.ledger.isSome, d)
  | .load, d => some (.ok d.ledger, d)
  | .save state, d => some (.ok (), { d with ledger := some state })
  | .terminal _, d => some (.ok none, d)
  | .completed_count i, d => some (.ok (d.cleared i), d)
  | .resume_context _, d => some (.ok (some (some 3)), d)
  | .client_factory, d => some (.ok none, d)
  | .canonical, d => some (.ok d.canonical, d)
  | .paused, d => some (false, d)
  | .token_hex, d => some (wagerNonce, d)
  | .list _, d => some (.ok rows, { d with listed := rows })
  | .create _ _ _, d => some (.ok [chapterRow .ACTIVE], { d with log := .created d.stored false :: d.log })
  | .end_ id .RESOLVED outcome, d =>
    some (.ok [chapterRow .RESOLVED], { d with log := .ended (d.ending id .RESOLVED outcome) :: d.log })
  | .end_ id status outcome, d =>
    some (.ok [chapterRow .CANCELED], { d with log := .ended (d.ending id status outcome) :: d.log })
  | .change (.progress i n), d =>
    if n ≤ MAX_CHAPTER ∧ d.cleared i = none then some ((), { d with cleared := Function.update d.cleared i (some n) })
    else none
  | .change (.canonical c), d =>
    if c.active.all (· ∉ d.past) then
      some ((), { d with
        canonical := c
        past := if c.active = d.canonical.active then d.past else d.canonical.active.toList ++ d.past })
    else none
  | _, _ => none

theorem admitted_nil : Admitted (.ok []) := ⟨Nat.zero_le _, nofun⟩

theorem admitted_chapterRow (status : Status) (hs : status ≠ .INTENT) : Admitted (.ok [chapterRow status]) := by
  refine ⟨by simp, fun row hrow => ?_⟩
  obtain rfl := mem_singleton.mp hrow
  cases status with
  | INTENT => exact absurd rfl hs
  | _ => decide

theorem answers_serves {rows : List Remote} (hrows : Admitted (.ok rows)) (str : Json → Text) :
    Sys.Serves (world str) (answers rows) := by
  intro q d x d' h
  unfold answers at h
  split at h
  case h_1 =>
    cases h
    exact ⟨rfl, rfl⟩
  case h_10 =>
    cases h
    exact ⟨rfl, by decide⟩
  case h_2 | h_5 | h_8 =>
    cases h
    exact ⟨rfl, .inl rfl⟩
  case h_3 =>
    cases h
    exact .inl ⟨rfl, .inl rfl⟩
  case h_4 =>
    cases h
    exact .inr ⟨.inl rfl, rfl⟩
  case h_6 | h_9 =>
    cases h
    exact rfl
  case h_7 =>
    cases h
    exact ⟨rfl, nofun⟩
  case h_11 =>
    cases h
    exact ⟨hrows, rfl⟩
  case h_12 | h_13 | h_14 =>
    cases h
    exact ⟨admitted_chapterRow _ (by decide), rfl⟩
  case h_15 =>
    split at h
    · next hn =>
      cases h
      exact .progress _ _ hn.1 fun m hm => by simp [hn.2] at hm
    · cases h
  case h_16 =>
    split at h
    · next hpast =>
      cases h
      refine .canonical _ fun i hi => ?_
      simpa [hi] using hpast
    · cases h
  case h_17 => cases h

/-- The same surroundings, while they meet the condition. -/
def calmly (rows : List Remote) : Sys.Server Ask Ask.Answer Disk
  | .canonical, d =>
    if d.stored.all fun row => d.canonical.active = some row.identity then answers rows .canonical d else none
  | .change (.progress i n), d =>
    if d.canonical.active = some i ∧ i ∉ d.finished then answers rows (.change (.progress i n)) d else none
  | q, d => answers rows q d

theorem calmly_serves {rows : List Remote} (hrows : Admitted (.ok rows)) (str : Json → Text) :
    Sys.Serves (careful str) (calmly rows) := by
  intro q d x d' h
  unfold calmly at h
  split at h
  · split at h
    · next hsame =>
      refine ⟨answers_serves hrows str _ _ _ _ h, ?_⟩
      cases h
      intro row hw _ _ hne
      simp only [hw.1, all_some, decide_eq_true_eq] at hsame
      exact absurd hsame hne
    · cases h
  · split at h
    · next hactive => exact ⟨answers_serves hrows str _ _ _ _ h, fun _ _ _ _ => .inr hactive⟩
    · cases h
  · next hcanonical hprogress =>
    refine ⟨answers_serves hrows str _ _ _ _ h, ?_⟩
    unfold Careful
    split
    · exact absurd rfl hcanonical
    · exact absurd rfl (hprogress _ _)
    · trivial

def asText : Json → Text := fun _ => []

def chapterConfig : Config := ⟨true, 1, 1800, by decide, by decide, by decide, by decide⟩

/-- The third chapter is completed while the run is canonical. -/
def completed : List (Sys.Action Ask Ask.Answer Call Disk) :=
  [.spawn 0 (.tick chapterConfig (some runA) 100), .go 0 100 (calmly []),
   .spawn 1 (.change (.progress runA 3)), .go 1 10 (calmly []),
   .spawn 2 (.tick chapterConfig (some runA) 200), .go 2 100 (calmly [chapterRow .ACTIVE])]

/-- The round is ended with the outcome of the completed chapter. -/
theorem wager_kept_completed : ∃ s : Wagers, Kept s.data ∧
    s.data.log.any fun | .ended e => e.status = .RESOLVED && e.outcome = some "x".toList | _ => false := by
  have hrow : Admitted (.ok [chapterRow .ACTIVE]) := admitted_chapterRow _ (by decide)
  have hfair : ∀ a ∈ completed, a.Fair (careful asText) := by
    simp only [completed, forall_mem_cons, not_mem_nil, false_implies, implies_true, and_true]
    exact ⟨trivial, calmly_serves admitted_nil _, trivial, calmly_serves admitted_nil _, trivial, calmly_serves hrow _⟩
  exact ⟨_, wager_kept asText nothingWagered_fresh (Sys.acts_reach hfair _), by decide +kernel⟩

/-- The third chapter is completed; before a tick sees this, another run becomes canonical. -/
def completedAndReplaced : List (Sys.Action Ask Ask.Answer Call Disk) :=
  [.spawn 0 (.tick chapterConfig (some runA) 100), .go 0 100 (answers []),
   .spawn 1 (.change (.progress runA 3)), .go 1 10 (answers []),
   .spawn 2 (.change (.canonical ⟨true, some runB⟩)), .go 2 10 (answers []),
   .spawn 3 (.tick chapterConfig none 200), .go 3 100 (answers [chapterRow .ACTIVE])]

/-- The round was canceled, without a snapshot, when its target was reached. -/
def Entry.wronged : Entry → Bool
  | .ended e => e.status = .CANCELED && e.snapshot.isNone &&
      e.stored.any fun row => row.kind = .resume && e.cleared.any (row.target ≤ ·)
  | .created _ _ => false

theorem Entry.wronged_ended {entry : Entry} (h : entry.wronged = true) : ∃ e, entry = .ended e ∧ ¬ e.Faithful := by
  cases entry with
  | created => cases h
  | ended e =>
    refine ⟨e, rfl, fun hf => ?_⟩
    simp only [wronged, Bool.and_eq_true, decide_eq_true_eq, Option.isNone_iff_eq_none, Option.any_eq_true] at h
    obtain ⟨⟨hstatus, hsnapshot⟩, row, hrow, hkind, n, hn, hle⟩ := h
    rcases hf.refund hstatus with ⟨snapshot, hs, -⟩ | hno
    · rw [hsnapshot] at hs
      cases hs
    · exact (hno row hrow).2 ⟨hkind, n, hn, hle⟩

/-- A round is canceled though its target is reached. -/
theorem reached_canceled : ∃ s : Wagers,
    Sys.Reach (world asText) (code asText) (Sys.start nothingWagered) s ∧ ¬ Kept s.data := by
  have hrow : Admitted (.ok [chapterRow .ACTIVE]) := admitted_chapterRow _ (by decide)
  have hfair : ∀ a ∈ completedAndReplaced, a.Fair (world asText) := by
    simp only [completedAndReplaced, forall_mem_cons, not_mem_nil, false_implies, implies_true, and_true]
    exact ⟨trivial, answers_serves admitted_nil _, trivial, answers_serves admitted_nil _, trivial,
      answers_serves admitted_nil _, trivial, answers_serves hrow _⟩
  have hwronged : (Sys.acts (world asText) (code asText) completedAndReplaced
      (Sys.start nothingWagered)).data.log.any Entry.wronged = true := by decide +kernel
  refine ⟨_, Sys.acts_reach hfair _, fun hkept => ?_⟩
  obtain ⟨entry, hmem, hentry⟩ := any_eq_true.mp hwronged
  obtain ⟨e, rfl, hno⟩ := Entry.wronged_ended hentry
  exact hno (hkept.faithful e hmem)

end Docich.HanjukuWager
