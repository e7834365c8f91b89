import Docich.HanjukuWager.Endings

/-!
# The rounds of a tick

- `does_createRound`: a call of `create` is the only one for its run;
- `does_proceed`, `does_settle`: a round that is not done;
- `does_openRound`: a new round.
-/

namespace Docich.HanjukuWager

open Durable.Locks List Except
open Durable.Locks.Work (throw get modify ask ofExcept handle locking)
open Predictions (Text isText)
open Wire (Json)

/-! ## Creating a round -/

section Creating

variable {str : Json → Text} {row : Round} {s : State} {d d' : Disk}

/-- Every call of `create` for the run was definitively rejected. -/
def Unspent (d : Disk) (i : Identity) : Prop := ∀ row, .created (some row) false ∈ d.log → row.identity ≠ i

theorem Unspent.onward {i : Identity} (h : Unspent d i) (ho : Onward d d') : Unspent d' i := by
  unfold Unspent
  rw [ho.log]
  exact h

/-- A canonical run whose round was not attempted has no call that was not rejected. -/
theorem Sound.unspent (h : Sound s d) (hk : Known d) (hr : s.round = some row) (ha : row.attempted = false)
    (hc : d.canonical.active = some row.identity) : Unspent d row.identity := by
  intro row' hmem he
  rcases h.round.spent row' hmem with hp | ⟨r, hr', -, hatt⟩
  · exact hk.fresh _ hc (he ▸ hp)
  · obtain rfl := Option.some.inj (hr.symm.trans hr')
    rw [ha] at hatt
    cases hatt

theorem ownership_of {remote : Remote} (ht : remote.outcomes.map Outcome.title = row.outcome_titles)
    (ha : remote.admitted = true) {row' : Round} (hid : row'.id = some remote.id)
    (hids : row'.outcome_ids = remote.outcomes.map Outcome.id) (htitles : row'.outcome_titles = row.outcome_titles) :
    checkOwnership row' = true := by
  simp only [Remote.admitted, Bool.and_eq_true, all_eq_true, decide_eq_true_eq] at ha
  have hlength : remote.outcomes.length = row.outcome_titles.length := by rw [← ht, length_map]
  simp only [checkOwnership, hid, hids, htitles, Option.all_some, length_map, hlength, Bool.and_eq_true,
    decide_eq_true_eq, all_map, all_eq_true, Function.comp_apply]
  exact ⟨⟨⟨ha.1.1.1, trivial⟩, ha.2⟩, ha.1.2⟩

theorem isOf_titles {remote : Remote} (h : isOf row remote = true) :
    remote.title = row.title ∧ remote.outcomes.map Outcome.title = row.outcome_titles := by
  simp only [isOf, Bool.and_eq_true, decide_eq_true_eq] at h
  exact ⟨h.1.1.1, h.1.1.2⟩

/-- A round with other identifiers is still accepted. -/
theorem checkRound_owned (h : checkRound row = true) {row' : Round} (ho : checkOwnership row' = true)
    (hi : row'.identity = row.identity) (hintent : checkIntent row' = checkIntent row) (hn : row'.nonce = row.nonce)
    (hw : row'.window = row.window) (hr : row'.result = row.result) : checkRound row' = true := by
  simp only [checkRound, Bool.and_eq_true] at h ⊢
  rw [hi, hintent, hn, hw, hr]
  exact ⟨⟨h.1.1, ho⟩, h.2⟩

theorem once_created {log : List Entry} (h : Once log) {rejected : Bool}
    (hu : ∀ r, .created (some r) false ∈ log → r.identity ≠ row.identity) :
    Once (.created (some row) rejected :: log) := by
  refine ⟨fun stored rejected' hmem => ?_, fun later r earlier hlog => ?_⟩
  · rcases mem_cons.mp hmem with he | hmem
    · cases he
      rfl
    · exact h.1 stored rejected' hmem
  · cases later with
    | nil => intro _ _ hmem; cases hmem
    | cons x later =>
      rw [cons_append, List.cons.injEq] at hlog
      obtain ⟨rfl, hlog⟩ := hlog
      intro row' rejected' hmem
      rcases mem_cons.mp hmem with he | hmem
      · cases he
        exact (hu r (hlog ▸ mem_append_right _ mem_cons_self)).symm
      · exact h.2 later r earlier hlog row' rejected' hmem

/-- What holds when `create` is called. -/
structure Posting (row : Round) (s : State) (d : Disk) : Prop where
  sound : Sound s d
  memory : s.round = some row
  stored : d.stored = some row
  attempted : row.attempted = true
  unspent : Unspent d row.identity

theorem loose_posting : Loose (Posting row) := fun _ _ _ _ ho hp =>
  ⟨hp.sound.onward ho, hp.memory, ho.stored.trans hp.stored, hp.attempted, hp.unspent.onward ho⟩

/-- The call is noted. -/
theorem Posting.spent (h : Posting row s d) (hk : Known d) (rejected : Bool) :
    Known { d with log := .created (some row) rejected :: d.log } ∧
      Sound s { d with log := .created (some row) rejected :: d.log } := by
  have hspent : Spent (some row) { d with log := .created (some row) rejected :: d.log } := by
    intro r hmem
    rcases mem_cons.mp hmem with he | hmem
    · cases he
      exact .inr ⟨row, rfl, rfl, h.attempted⟩
    · have hr := h.sound.round.spent r hmem
      rw [h.memory] at hr
      exact hr
  refine ⟨⟨once_created hk.once h.unspent, fun e hmem => ?_, hk.accepted, ?_, fun r rejected' hmem => ?_, hk.fresh,
    hk.cleared⟩, ⟨h.sound.accepted, h.sound.round.current, h.sound.round.finished, ?_⟩⟩
  · exact hk.faithful e (by simpa using hmem)
  · refine ⟨hk.round.current, hk.round.finished, ?_⟩
    change Spent d.stored _
    rw [h.stored]
    exact hspent
  · rcases mem_cons.mp hmem with he | hmem
    · cases he
      exact h.sound.round.current row h.memory
    · exact hk.created r rejected' hmem
  · rw [h.memory]
    exact hspent

/-- The prediction is created, or the call raises. -/
theorem does_create (row row' : Round) : Durable.Locks.Triple (careful str) contract held (Posting row) (create row')
    (fun rows s d => Sound s d ∧ s.round = some row ∧ ∀ r ∈ rows, r.admitted = true)
    fun e s d => Sound s d ∧ s.round = some row ∧ (e.rejected = true → Unspent d row.identity) := by
  refine triple_bind (R := fun (x : Except Exc (List Remote)) s d => (Sound s d ∧ s.round = some row) ∧
    (refused x = true → Unspent d row.identity) ∧ Admitted x) ?_ fun x => ?_
  · refine does_ask loose_posting.steady fun s d x d' hk hp hx _ => ?_
    obtain ⟨hadmitted, rfl⟩ := hx
    rw [hp.stored]
    obtain ⟨hknown, hsound⟩ := hp.spent hk (refused x)
    refine ⟨hknown, ⟨hsound, hp.memory⟩, fun hrefused r hmem => hp.unspent r ?_, hadmitted⟩
    rw [hrefused] at hmem
    simpa using hmem
  · refine triple_ofExcept (fun rows hx s d hp => ?_) fun e hx s d hp => ?_
    · subst hx
      exact ⟨hp.1.1, hp.1.2, hp.2.2.2⟩
    · subst hx
      exact ⟨hp.1.1, hp.1.2, hp.2.1⟩

theorem does_outrun {P : State → Disk → Prop} (hP : Loose P) (hs : ∀ s d, P s d → Sound s d) (canonical : Canonical) :
    Does str P (outrun row canonical)
      fun outrun s d => P s d ∧ (outrun = false → canonical.active = some row.identity) := by
  refine triple_ite (fun _ => triple_pure fun s d hp => ⟨hp, nofun⟩) fun hc => ?_
  refine triple_bind (does_terminal hP hs) fun evidence => triple_pure fun s d hp => ⟨hp.1, fun _ => ?_⟩
  simp only [Bool.or_eq_true, Bool.not_eq_true', decide_eq_true_eq, not_or, not_not] at hc
  exact hc.2

theorem does_noteRejected (e : Exc) : Does str
    (fun s d => Sound s d ∧ s.round = some row ∧ (e.rejected = true → Unspent d row.identity)) (noteRejected e)
      fun _ s d => Sound s d := by
  refine triple_ite (fun he => triple_modify fun s d _ hp => ?_) fun _ => triple_pure fun s d hp => hp.1
  rw [hp.2.1]
  have hsound := hp.1
  refine ⟨?_, fun r hr => ?_, fun r hr hs => ?_, fun r hmem => ?_⟩
  · have hacc := hsound.accepted
    simp only [checkState, Bool.and_eq_true, hp.2.1, Option.all_some, Option.map_some] at hacc ⊢
    exact hacc
  · cases hr
    exact hsound.round.current row hp.2.1
  · cases hr
    exact hsound.round.finished row hp.2.1 hs
  · rcases hsound.round.spent r hmem with hpast | ⟨r', hr', hid, -⟩
    · exact .inl hpast
    · obtain rfl := Option.some.inj (hp.2.1.symm.trans hr')
      exact absurd hid.symm (hp.2.2 he r hmem)

/-- A run whose round was not attempted. -/
structure Unposted (row : Round) (s : State) (d : Disk) : Prop where
  sound : Sound s d
  memory : s.round = some row
  attempted : row.attempted = false

theorem loose_unposted : Loose (Unposted row) := fun _ _ _ _ ho hp => ⟨hp.sound.onward ho, hp.memory, hp.attempted⟩

theorem does_createRound (remote_rows : List Remote) :
    Does str (Unposted row) (createRound remote_rows) fun _ s d => Sound s d := by
  refine triple_get fun v => does_given (fun s d hp => hp.1 ▸ hp.2.memory) fun hround => ?_
  rw [hround]
  refine Triple.pre ?_ fun s d hp => hp.2
  refine triple_bind (does_readCanonical loose_unposted.steady fun s d hp => hp.sound) fun canonical => ?_
  have hloose : Loose fun s d => Unposted row s d ∧ (canonical.active = some row.identity → Unspent d row.identity) :=
    fun s d d' hk ho hp => ⟨loose_unposted s d d' hk ho hp.1, fun hc => (hp.2 hc).onward ho⟩
  refine Triple.pre (P := fun s d => Unposted row s d ∧ (canonical.active = some row.identity →
    Unspent d row.identity)) ?_ fun s d hp => ⟨hp.1, fun hc => ?_⟩
  swap
  · exact hp.1.sound.unspent hp.2.1 hp.1.memory hp.1.attempted (hp.2.2.1 ▸ hc)
  refine triple_bind (does_outrun hloose (fun s d hp => hp.1.sound) canonical) fun outrun => triple_ite (fun _ => ?_)
    fun hover => ?_
  · exact does_setMode (fun s d mode hp => hp.1.1.sound.mode mode) .pending
  refine Triple.pre (P := fun s d => Unposted row s d ∧ Unspent d row.identity) ?_ fun s d hp =>
    ⟨hp.1.1, hp.1.2 (hp.2 (by simpa using hover))⟩
  have hloose : Loose fun s d => Unposted row s d ∧ Unspent d row.identity :=
    fun s d d' hk ho hp => ⟨loose_unposted s d d' hk ho hp.1, hp.2.onward ho⟩
  refine triple_bind (does_completedCount hloose.steady fun s d hp => hp.1.sound) fun cleared =>
    triple_ite (fun _ => does_done (fun s d hp => hp.1.1.sound) .CANCELED .known_result) fun _ =>
    triple_ite (fun _ => does_setMode (fun s d mode hp => hp.1.1.sound.mode mode) .blocked) fun _ => ?_
  have hattempt : Does str (fun s d => (Unposted row s d ∧ Unspent d row.identity) ∧ cleared = d.cleared row.identity ∧
      cleared.all (· ≤ MAX_CHAPTER) = true) (updateRow fun row => { row with attempted := true }) fun _ s d =>
        Sound s d ∧ s.round = some { row with attempted := true } ∧ Unspent d row.identity := by
    refine triple_modify fun s d _ hp => ?_
    have hp := hp.1
    have hchecked := hp.1.sound.checked hp.1.memory
    have hover := hp.1.sound.round.finished row hp.1.memory
    rw [hp.1.memory]
    exact ⟨hp.1.sound.row hp.1.memory hchecked rfl hover fun _ => rfl, rfl, hp.2⟩
  have hsave : Does str (fun s d => Sound s d ∧ s.round = some { row with attempted := true } ∧ Unspent d row.identity)
      saveLedger fun _ s d => Posting { row with attempted := true } s d := by
    refine does_saveLedger ?_ (fun s d hp => hp.1) fun s d _ hp => ?_
    · exact fun s d d' _ ho _ _ hp => ⟨hp.1.onward ho, hp.2.1, hp.2.2.onward ho⟩
    · exact ⟨hp.1.congr rfl rfl rfl rfl, hp.2.1, hp.2.1, rfl, hp.2.2⟩
  refine triple_bind hattempt fun _ => triple_bind (does_setMode (fun s d mode hp => ⟨hp.1.mode mode, hp.2⟩) .pending)
    fun _ => triple_bind hsave fun _ => triple_bind (triple_handle (does_create _ row) fun e =>
      triple_bind (does_noteRejected e) fun _ => does_throw fun _ _ hp => hp) fun created => ?_
  split
  · next created =>
    refine triple_ite (fun hc => triple_bind ?_ fun _ => does_setMode (fun s d mode hp => Sound.mode hp mode) .active)
      fun _ => does_throw fun s d hp => hp.1
    refine triple_modify fun s d _ hp => ?_
    rw [Bool.and_eq_true] at hc
    obtain ⟨hsound, hmemory, hadmitted⟩ := hp
    have hchecked := hsound.checked hmemory
    have hover := hsound.round.finished _ hmemory
    rw [hmemory]
    refine hsound.row hmemory (checkRound_owned hchecked ?_ rfl rfl rfl rfl rfl) rfl hover fun ha => ha
    exact ownership_of (isOf_titles hc.1).2 (hadmitted created (by simp)) rfl rfl rfl
  · exact does_throw fun s d hp => hp.1

end Creating

/-! ## A round that is not done -/

section Settling

variable {str : Json → Text} {row : Round} {remote : Remote} {id : Text} {view : View} {s : State} {d d' : Disk}

/-- What the view of a tick says about its round. -/
structure Facts (view : View) (row : Round) (d : Disk) : Prop where
  reached : view.resume_reached = true → row.Reached (d.cleared row.identity)
  lost : (view.resume_reached = false ∧ row.result.isSome = true) ∨
      (view.ready = true ∧ view.same = false ∧ row.result = none) →
    ¬ row.Reached (d.cleared row.identity) ∧ (row.identity ∈ d.past ∨ row.identity ∈ d.finished)

variable (h : Facts view row d)

include h

theorem Facts.onward (ho : Onward d d') (hstored : d.stored = some row)
    (hlive : row.status.done = false) : Facts view row d' :=
  ⟨fun hr => ho.reached (h.reached hr), fun hl =>
    have hlost := h.lost hl
    ⟨unreached_onward ho hstored hlive hlost.2 hlost.1, ho.gone hlost.2⟩⟩

/-- The facts are about the wager, whatever row of the API it owns. -/
theorem Facts.congr {row' : Round} (hi : row'.identity = row.identity)
    (hk : row'.kind = row.kind) (ht : row'.target = row.target) (hr : row'.result = row.result) :
    Facts view row' d := by
  have hreached : row'.Reached = row.Reached := by
    funext cleared
    simp [Round.Reached, hk, ht]
  refine ⟨fun hv => ?_, fun hv => ?_⟩
  · rw [hreached, hi]
    exact h.reached hv
  · rw [hreached, hi]
    exact h.lost (hr ▸ hv)

theorem Facts.status (status : Status) : Facts view { row with status := status } d :=
  ⟨h.reached, h.lost⟩

/-- The outcome of the round, or its cancellation, is as it has to be. -/
theorem Facts.decision {index : Option ℕ}
    (hindex : decideIndex row view.resume_reached = .ok index)
    (hcancel : (row.result.isSome || view.resume_reached ||
      (row.result.isSome && index.isNone || (view.ready && !view.same && row.result.isNone))) = true) :
    Decision row (if row.result.isSome && index.isNone || (view.ready && !view.same && row.result.isNone) then none
      else index) d := by
  unfold decideIndex at hindex
  cases hreached : view.resume_reached with
  | true =>
    rw [hreached, if_pos rfl] at hindex
    obtain rfl := ok.inj hindex
    have hr := h.reached hreached
    have hno : ¬ (view.ready && !view.same && row.result.isNone) = true := by
      intro hb
      simp only [Bool.and_eq_true, Bool.not_eq_true', Option.isNone_iff_eq_none] at hb
      exact (h.lost (.inr ⟨hb.1.1, hb.1.2, hb.2⟩)).1 hr
    rw [if_neg (by simpa using hno)]
    exact .inr ⟨rfl, hr⟩
  | false =>
    rw [hreached, if_neg (by simp)] at hindex
    cases hresult : row.result with
    | none =>
      rw [hresult] at hindex hcancel
      obtain rfl := ok.inj hindex
      simp only [hreached, Option.isSome_none, Bool.false_or, Option.isNone_none, Bool.and_true] at hcancel
      have hlost := h.lost (.inr (by simpa [hresult] using hcancel))
      have hnone : (if (none : Option Result).isSome && (none : Option ℕ).isNone ||
          (view.ready && !view.same && (none : Option Result).isNone) then none else none) = (none : Option ℕ) :=
        ite_self _
      rw [hnone]
      exact ⟨fun index ⟨r, hr, _⟩ => (nomatch hresult.symm.trans hr), hlost.1, hlost.2⟩
    | some result =>
      rw [hresult] at hindex
      have hlost := h.lost (.inl ⟨hreached, by rw [hresult]; rfl⟩)
      cases index with
      | none =>
        refine ⟨fun index ⟨r, hr, hok⟩ => ?_, hlost.1, hlost.2⟩
        obtain rfl := Option.some.inj (hresult.symm.trans hr)
        have hboth := hindex.symm.trans hok
        cases hboth
      | some index =>
        rw [if_neg (by simp)]
        exact .inl ⟨result, hresult, hindex⟩

omit h

theorem steady_facts : Steady fun s d => Doing row id remote s d ∧ Facts view row d :=
  fun _ _ _ _ ho _ hl hp => ⟨hp.1.onward ho hl, hp.2.onward ho hp.1.stored hp.1.live⟩

/-- The row of the round is live. -/
theorem does_proceed : Does str (fun s d => Doing row id remote s d ∧ Facts view row d)
    (proceed str view row id remote) fun _ s d => Sound s d := by
  have hindex : Does str (fun s d => Doing row id remote s d ∧ Facts view row d)
      (ofExcept (decideIndex row view.resume_reached)) fun index s d => (Doing row id remote s d ∧ Facts view row d) ∧
        decideIndex row view.resume_reached = .ok index :=
    does_ofExcept (fun s d hp => hp.1.sound) fun index hi s d hp => ⟨hp, hi⟩
  refine triple_bind hindex fun index => does_given (fun s d hp => hp.2) fun hdecide => Triple.pre ?_ fun s d hp => hp.1
  refine triple_ite (fun _ => does_setMode (fun s d mode hp => hp.1.sound.mode mode) .pending) fun _ =>
    triple_ite (fun hc => ?_) fun _ => ?_
  · exact (does_conclude view.now).pre fun s d hp => ⟨hp.1, hp.2.decision hdecide hc⟩
  · refine triple_bind (does_setMode (fun s d mode hp => ⟨hp.1.mode mode, hp.2⟩) .active) fun _ =>
      triple_bind (does_completedCount steady_facts fun s d hp => hp.1.sound) fun cleared =>
      triple_ite (fun _ => ?_) fun _ => triple_pure fun s d hp => hp.1.1.sound
    have hlock : Does str (fun s d => Doing row id remote s d ∧ Facts view row d) (endPrediction id .LOCKED none)
        fun _ s d => Sound s d :=
      does_endPrediction steady_facts (fun s d hp => hp.1.sound) (fun s d hp => ⟨hp.1.owned, nofun, nofun⟩)
        fun s d e hp => hp.1.sound.noted e
    exact triple_bind (hlock.pre fun s d hp => hp.1) fun _ => triple_pure fun s d hp => hp

/-- A tick that has looked at its round. -/
structure Viewing (view : View) (row : Round) (s : State) (d : Disk) : Prop where
  sound : Sound s d
  memory : s.round = some row
  stored : d.stored = some row
  live : row.status.done = false
  facts : Facts view row d

theorem loose_viewing : Loose (Viewing view row) := fun _ _ _ _ ho hp =>
  ⟨hp.sound.onward ho, hp.memory, ho.stored.trans hp.stored, hp.live, hp.facts.onward ho hp.stored hp.live⟩

/-- Only the identifiers are new. -/
theorem adopt_fields (row : Round) (remote : Remote) : (row.adopt remote).identity = row.identity ∧
    (row.adopt remote).kind = row.kind ∧ (row.adopt remote).target = row.target ∧
    (row.adopt remote).result = row.result ∧ (row.adopt remote).attempted = row.attempted ∧
    (row.adopt remote).status = row.status := by
  unfold Round.adopt
  split <;> simp

theorem checkRound_adopt (hc : checkRound row = true) (h : isOf row remote = true) (ha : remote.admitted = true) :
    checkRound (row.adopt remote) = true := by
  unfold Round.adopt
  split
  · exact checkRound_owned hc (ownership_of (isOf_titles h).2 ha rfl rfl rfl) rfl rfl rfl rfl rfl
  · exact hc

theorem isOf_adopt (h : isOf row remote = true) : isOf (row.adopt remote) remote = true := by
  unfold Round.adopt
  split
  · have ht := isOf_titles h
    simp [isOf, ht.1, ht.2]
  · exact h

/-- A round that owns its row. -/
structure Adopted (view : View) (row : Round) (remote : Remote) (s : State) (d : Disk) : Prop where
  sound : Sound s d
  memory : s.round = some (row.adopt remote)
  stored : d.stored = some row
  live : row.status.done = false
  facts : Facts view row d
  listed : remote ∈ d.listed

theorem does_adopt (hm : isOf row remote = true) (ha : remote.admitted = true) :
    Does str (fun s d => Viewing view row s d ∧ remote ∈ d.listed) (updateRow fun _ => row.adopt remote)
      fun _ s d => Adopted view row remote s d := by
  obtain ⟨hi, -, -, hr, hatt, -⟩ := adopt_fields row remote
  refine triple_modify fun s d _ hp => ?_
  obtain ⟨hv, hl⟩ := hp
  have hchecked := hv.sound.checked hv.memory
  have hover := hv.sound.round.finished row hv.memory
  rw [hv.memory]
  exact ⟨hv.sound.row hv.memory (checkRound_adopt hchecked hm ha) hi (fun hs => hover (hr ▸ hs)) fun h => hatt ▸ h, rfl,
    hv.stored, hv.live, hv.facts, hl⟩

/-- A row that has ended is recorded, and then the round is done. -/
theorem does_recordFound (now : ℚ) (adopted : Round) :
    Does str Sound (recordFound str now adopted remote) fun _ s d => Sound s d := by
  unfold recordFound
  split
  · exact does_ending .RESOLVED (does_recordSettled loose_sound (fun _ _ hp => hp) remote now)
  · refine triple_bind (does_loadCancelSnapshot loose_sound.steady (fun _ _ hp => hp) adopted remote.id) fun snapshot =>
      Triple.pre (P := Sound) ?_ fun s d hp => hp.1
    refine triple_ite (fun _ => ?_) fun _ => triple_pure fun s d hp => hp
    exact triple_bind (does_ending .CANCELED (does_recordCanceled loose_sound (fun _ _ hp => hp) now _)) fun _ =>
      does_unlinkSnapshot (fun _ _ hp => hp) remote.id
  · exact triple_pure fun s d hp => hp

theorem does_saveSound : Does str Sound saveLedger fun _ s d => Sound s d :=
  does_saveLedger loose_sound.steady (fun _ _ hp => hp) fun _ _ _ hp => hp.congr rfl rfl rfl rfl

theorem does_found (hm : isOf row remote = true) (ha : remote.admitted = true) :
    Does str (fun s d => Viewing view row s d ∧ remote ∈ d.listed) (found str view row remote)
      fun _ s d => Sound s d := by
  refine triple_bind (does_adopt hm ha) fun _ => ?_
  by_cases hdone : remote.status.done = true
  · refine triple_bind ((does_recordFound view.now _).pre fun s d hp => hp.sound) fun _ =>
      triple_bind (does_setStatus (fun s d hp => hp) remote.status) fun _ => triple_bind does_saveSound fun _ =>
      triple_ite (fun _ => does_setMode (fun s d mode hp => hp.mode mode) _) fun hc => absurd hdone hc
  · -- The row is live: nothing is recorded, and the round stays with the tick.
    have hrecord : recordFound str view.now (row.adopt remote) remote = pure () := by
      unfold recordFound
      split
      · next he => exact absurd (by rw [he]; rfl) hdone
      · next he => exact absurd (by rw [he]; rfl) hdone
      · rfl
    rw [hrecord]
    obtain ⟨hi, hk, ht, hr, hatt, -⟩ := adopt_fields row remote
    have hstatus : Does str (Adopted view row remote) (setStatus remote.status) fun _ s d =>
        (Sound s d ∧ s.round = some { row.adopt remote with status := remote.status }) ∧ d.stored = some row ∧
          row.status.done = false ∧ Facts view row d ∧ remote ∈ d.listed := by
      refine triple_modify fun s d _ hp => ⟨⟨hp.sound.status _, ?_⟩, hp.stored, hp.live, hp.facts, hp.listed⟩
      rw [hp.memory]
      rfl
    have hsave : Does str (fun s d => (Sound s d ∧ s.round = some { row.adopt remote with status := remote.status }) ∧
        d.stored = some row ∧ row.status.done = false ∧ Facts view row d ∧ remote ∈ d.listed) saveLedger fun _ s d =>
          Doing { row.adopt remote with status := remote.status } remote.id remote s d ∧
            Facts view { row.adopt remote with status := remote.status } d := by
      refine does_saveLedger ?_ (fun s d hp => hp.1.1) fun s d _ hp =>
        ⟨⟨?_, hp.1.2, hp.1.2, ?_, hp.2.2.2.2, ?_, rfl⟩, ?_⟩
      · exact fun s d d' _ ho _ hl hp => ⟨⟨hp.1.1.onward ho, hp.1.2⟩, ho.stored.trans hp.2.1, hp.2.2.1,
          hp.2.2.2.1.onward ho hp.2.1 hp.2.2.1, hl ▸ hp.2.2.2.2⟩
      · exact hp.1.1.congr rfl rfl rfl rfl
      · simpa using hdone
      · exact isOf_adopt hm
      · have hfacts : Facts view row { d with ledger := some s } := ⟨hp.2.2.2.1.reached, hp.2.2.2.1.lost⟩
        exact (hfacts.congr hi hk ht hr).status remote.status
    refine triple_bind (triple_pure fun s d hp => hp) fun _ => triple_bind hstatus fun _ => triple_bind hsave fun _ =>
      triple_ite (fun hc => absurd hc hdone) fun _ => does_proceed

theorem does_settle (live_owner paused : Bool) :
    Does str (Viewing view row) (settle str view row live_owner paused) fun _ s d => Sound s d := by
  refine triple_bind (does_listRows loose_viewing (fun s d hp => hp.sound) row.id) fun rows => ?_
  split
  · next remote hfilter =>
    have hmem : remote ∈ rows ∧ isOf row remote = true := mem_filter.mp (hfilter ▸ mem_singleton_self _)
    refine does_given (fun s d hp => hp.2.2 remote hmem.1) fun hadmitted => ?_
    exact (does_found hmem.2 hadmitted).pre fun s d hp => ⟨hp.1, hp.2.1 ▸ hmem.1⟩
  · refine triple_ite (fun _ => does_throw fun s d hp => hp.1.sound) fun _ => triple_ite
      (fun _ => does_throw fun s d hp => hp.1.sound) fun hatt => triple_ite (fun _ => ?_) fun _ => ?_
    · exact does_done (fun s d hp => hp.1.sound) .CANCELED .canceled
    · exact (does_createRound rows).pre fun s d hp => ⟨hp.1.sound, hp.1.memory, by simpa using hatt⟩
  · exact does_throw fun s d hp => hp.1.sound

end Settling

/-! ## A new round -/

section Opening

variable {str : Json → Text} {s : State} {d d' : Disk} {i : Identity} {cfg : Config}

/-- What a tick of the canonical run knows when its round may be replaced. -/
structure Owning (i : Identity) (s : State) (d : Disk) : Prop where
  sound : Sound s d
  checked : i.checked = true
  current : Current d i
  old : ∀ row, s.round = some row → row.identity = i ∨ row.identity ∈ d.past

theorem loose_owning : Loose (Owning i) := fun _ _ _ _ ho hp =>
  ⟨hp.sound.onward ho, hp.checked, ho.Current hp.current, fun row hr => (hp.old row hr).imp_right (ho.past _)⟩

theorem newBounds_spec {best : ℕ} {context : Option (Option ℕ)} {kind : Kind} {target : ℕ}
    (hc : ∀ chapter, context = some (some chapter) → 1 ≤ chapter ∧ chapter ≤ MAX_CHAPTER)
    (h : newBounds best context = .ok (.inr (kind, target))) (window : ℕ) (nonce : Text) :
    checkIntent (newRound i kind target window nonce) = true := by
  cases context with
  | none =>
    simp only [newBounds, thresholds] at h
    split at h
    · cases h
    · split at h
      · cases h
      · split at h
        · cases h
        · next hle hlt hone =>
          obtain ⟨rfl, rfl⟩ : Kind.range (max 1 ((best + 1) / 2)) = kind ∧ best + 1 = target := by
            simpa [Except.map] using h
          simp only [checkIntent, newRound, acceptedOutcomeTitles, Bool.and_eq_true, decide_eq_true_eq,
            mem_cons, true_or, or_true, and_true]
          refine ⟨⟨le_max_left _ _, decide_eq_true ?_⟩, decide_eq_true ?_⟩ <;> omega
  | some chapter =>
    cases chapter with
    | none => cases h
    | some chapter =>
      obtain ⟨rfl, rfl⟩ : Kind.resume = kind ∧ chapter = target := by simpa [newBounds] using h
      simp [checkIntent, newRound, hc chapter rfl]

theorem votingWindow_spec {target window : ℕ} (h : votingWindow target cfg.ending_window = .ok window) :
    1 ≤ window ∧ window ≤ 1800 := by
  unfold votingWindow at h
  split at h
  · next hb =>
    obtain rfl := ok.inj h
    have hmul : cfg.ending_window * target ≤ 1800 * 12 := Nat.mul_le_mul cfg.window_le hb.2.1
    unfold MAX_CHAPTER
    omega
  · cases h

/-- The memory of a tick with a new round. -/
theorem Owning.opened (h : Owning i s d) (hno : s.round.any (·.identity = i) = false) {row : Round}
    (hi : row.identity = i) (ha : row.attempted = false) (hr : row.result = none) (hc : checkRound row = true) :
    Unposted row { s with round := some row } d := by
  refine ⟨⟨?_, fun r he => ?_, fun r he hs => ?_, fun r hmem => ?_⟩, rfl, ha⟩
  · have hacc := h.sound.accepted
    simp only [checkState, Bool.and_eq_true, Option.all_some] at hacc ⊢
    exact ⟨hacc.1, hc⟩
  · cases he
    exact hi ▸ h.current
  · cases he
    rw [hr] at hs
    cases hs
  · rcases h.sound.round.spent r hmem with hp | ⟨r', hr', hid, -⟩
    · exact .inl hp
    · rcases h.old r' hr' with hsame | hp
      · simp [hr', hsame] at hno
      · exact .inl (hid ▸ hp)

theorem does_openRound (paused : Bool) : Does str (Owning i) (openRound cfg i paused) fun _ s d => Sound s d := by
  refine triple_get fun v => triple_ite (fun _ => triple_pure fun s d hp => hp.2.sound) fun hno => ?_
  have hno : v.round.any (·.identity = i) = false := by simpa using hno
  refine triple_ite (fun _ => does_setMode (fun s d mode hp => hp.2.sound.mode mode) .paused) fun _ => ?_
  have hloose : Loose fun s d => s = v ∧ Owning i s d := fun s d d' hk ho hp => ⟨hp.1, loose_owning s d d' hk ho hp.2⟩
  refine triple_bind (does_resumePredictionContext hloose fun s d hp => hp.2.sound) fun context =>
    does_given (fun s d hp => hp.2) fun hchapter => ?_
  have hbounds : Does str (fun s d => s = v ∧ Owning i s d) (ofExcept (newBounds v.best_cleared context))
      fun bounds s d =>
      (s = v ∧ Owning i s d) ∧ newBounds v.best_cleared context = .ok bounds :=
    does_ofExcept (fun s d hp => hp.2.sound) fun bounds hb s d hp => ⟨hp, hb⟩
  refine triple_bind (hbounds.pre fun s d hp => hp.1) fun bounds => does_given (fun s d hp => hp.2) fun hb => ?_
  refine Triple.pre (P := fun s d => s = v ∧ Owning i s d) ?_ fun s d hp => hp.1
  cases bounds with
  | inl mode => exact does_setMode (fun s d mode hp => hp.2.sound.mode mode) mode
  | inr bounds =>
    obtain ⟨kind, target⟩ := bounds
    refine triple_bind (does_completedCount hloose.steady fun s d hp => hp.2.sound) fun cleared =>
      triple_ite (fun _ => does_setMode (fun s d mode hp => hp.1.2.sound.mode mode) .known_result) fun _ =>
      Triple.pre (P := fun s d => s = v ∧ Owning i s d) ?_ fun s d hp => hp.1
    refine triple_bind (does_listRows hloose (fun s d hp => hp.2.sound) none) fun rows =>
      triple_ite (fun _ => does_setMode (fun s d mode hp => hp.1.2.sound.mode mode) .blocked) fun _ =>
      Triple.pre (P := fun s d => s = v ∧ Owning i s d) ?_ fun s d hp => hp.1
    refine triple_bind (does_tokenHex hloose) fun nonce => does_given (fun s d hp => hp.2) fun hnonce =>
      Triple.pre (P := fun s d => s = v ∧ Owning i s d) ?_ fun s d hp => hp.1
    have hwindow : Does str (fun s d => s = v ∧ Owning i s d) (ofExcept (votingWindow target cfg.ending_window))
        fun window s d => (s = v ∧ Owning i s d) ∧ votingWindow target cfg.ending_window = .ok window :=
      does_ofExcept (fun s d hp => hp.2.sound) fun window hw s d hp => ⟨hp, hw⟩
    refine triple_bind hwindow fun window => does_given (fun s d hp => hp.2) fun hw =>
      does_given (fun s d hp => hp.1.2.checked) fun hchecked => ?_
    have hround : checkRound (newRound i kind target window nonce) = true := by
      have hintent : checkIntent (newRound i kind target window nonce) = true := newBounds_spec hchapter hb window nonce
      have hw := votingWindow_spec hw
      unfold checkRound
      rw [hintent]
      simp [newRound, checkOwnership, hchecked, hnonce, hw]
    have hopen : Does str (fun s d => (s = v ∧ Owning i s d) ∧ votingWindow target cfg.ending_window = .ok window)
        (modify fun s => { s with round := some (newRound i kind target window nonce) }) fun _ s d =>
          Unposted (newRound i kind target window nonce) s d :=
      triple_modify fun s d _ hp => by
        obtain ⟨⟨rfl, ho⟩, -⟩ := hp
        exact ho.opened hno rfl rfl rfl hround
    exact triple_bind hopen fun _ => does_createRound rows

end Opening

end Docich.HanjukuWager
