import Docich.HanjukuWager.Promise

/-!
# The end of a round

- `does_result`: a result that is read or written is that of terminal evidence;
- `Sound.row`, `Sound.status`: the memory with another round;
- `does_recordCanceled`, `does_saveCancelSnapshot`: what is recorded of a round that has ended;
- `does_conclude`: a round is ended as it was decided.
-/

namespace Docich.HanjukuWager

open Durable.Locks Bool Option
open Durable.Locks.Work (throw get modify ask ofExcept handle locking)
open Predictions (Text isText)
open Wire (Json)

/-! ## Results -/

section Results

variable {str : Json → Text} {P : State → Disk → Prop} {i : Identity} {row : Round}

theorem does_result (hP : Loose P) (hs : ∀ s d, P s d → Sound s d) : Does str P (result i) fun r s d =>
    P s d ∧ ∀ v, r = some v → checkedResult v i = true ∧ i ∈ d.finished := by
  refine triple_bind (does_terminal hP hs) fun evidence => ?_
  cases evidence with
  | none => exact triple_pure fun s d hp => ⟨hp.1, fun v hv => by cases hv⟩
  | some evidence =>
    have hQ : Loose fun s d => P s d ∧ ∀ v, some evidence = some v → isSha v.frame_sha256 = true ∧ i ∈ d.finished :=
      fun s d d' hk ho hp => ⟨hP s d d' hk ho hp.1, fun v hv => ⟨(hp.2 v hv).1, ho.finished _ (hp.2 v hv).2⟩⟩
    refine triple_bind (does_readResult hQ fun s d hp => hs s d hp.1) fun saved => ?_
    cases saved with
    | some saved =>
      refine triple_ite (fun hc => triple_pure fun s d hp => ⟨hp.1, fun v hv => ?_⟩)
        fun _ => does_throw fun s d hp => hs s d hp.1
      cases hv
      simp only [and_eq_true] at hc
      exact ⟨hc.1.1, (hp.2 evidence rfl).2⟩
    | none =>
      refine triple_bind (does_completedCount hQ.steady fun s d hp => hs s d hp.1) fun cleared => ?_
      refine does_given (fun s d hp => hp.2.2) fun hcleared => ?_
      refine triple_bind ((does_writeResult hQ (fun s d hp => hs s d hp.1) _).pre fun s d hp => hp.1) fun _ => ?_
      refine triple_pure fun s d hp => ⟨hp.1, fun v hv => ?_⟩
      cases hv
      have hfacts := hp.2 evidence rfl
      exact ⟨by simp [checkedResult, hfacts.1, hcleared], hfacts.2⟩

end Results

/-! ## Memory -/

section Memory

variable {str : Json → Text} {s : State} {d : Disk}

variable (h : Sound s d)

include h

/-- Nothing but the round and the record is looked at. -/
theorem Sound.with_round {s' : State} (hbest : s'.best_cleared = s.best_cleared)
    (hround : s'.round = s.round) (hnext : 0 ≤ s'.next_poll_at) (hlast : 0 ≤ s'.last_poll_at) : Sound s' d := by
  refine ⟨?_, hround ▸ h.round⟩
  have ha := h.accepted
  simp only [checkState, and_eq_true, decide_eq_true_eq] at ha ⊢
  rw [hbest, hround]
  exact ⟨⟨⟨ha.1.1.1, hnext⟩, hlast⟩, ha.2⟩

theorem Sound.polls : 0 ≤ s.next_poll_at ∧ 0 ≤ s.last_poll_at := by
  have ha := h.accepted
  simp only [checkState, and_eq_true, decide_eq_true_eq] at ha
  exact ⟨ha.1.1.2, ha.1.2⟩

theorem Sound.mode (mode : Mode) : Sound { s with mode := mode } d :=
  h.with_round rfl rfl h.polls.1 h.polls.2

theorem Sound.checked {row : Round} (hr : s.round = some row) : checkRound row = true := by
  have ha := h.accepted
  simp only [checkState, and_eq_true, hr, all_some] at ha
  exact ha.2

/-- Another round of the same run. -/
theorem Sound.row {row row' : Round} (hr : s.round = some row) (hc : checkRound row' = true)
    (hi : row'.identity = row.identity) (ho : row'.result.isSome = true → row.identity ∈ d.finished)
    (ha : row.attempted = true → row'.attempted = true) : Sound { s with round := some row' } d := by
  refine ⟨?_, fun r he => ?_, fun r he hs => ?_, fun r hmem => ?_⟩
  · have hacc := h.accepted
    simp only [checkState, and_eq_true, all_some] at hacc ⊢
    exact ⟨hacc.1, hc⟩
  · cases he
    exact hi ▸ h.round.current row hr
  · cases he
    exact hi ▸ ho hs
  · rcases h.round.spent r hmem with hp | ⟨r', hr', hid, hatt⟩
    · exact .inl hp
    · obtain rfl := some.inj (hr.symm.trans hr')
      exact .inr ⟨row', rfl, hi.trans hid, ha hatt⟩

omit h

theorem checkRound_status {row : Round} (h : checkRound row = true) (status : Status) :
    checkRound { row with status := status } = true := h

theorem does_setMode {P R : State → Disk → Prop} (hR : ∀ s d mode, P s d → R { s with mode := mode } d) (mode : Mode) :
    Does str P (setMode mode) fun _ s d => R s d :=
  triple_modify fun s d _ hp => hR s d mode hp

theorem map_sound {f : Round → Round} (h : Sound s d)
    (hf : ∀ row, s.round = some row → Sound { s with round := some (f row) } d) :
    Sound { s with round := s.round.map f } d := by
  cases hr : s.round with
  | none =>
    have he : ({ s with round := none } : State) = s := by rw [← hr]
    rw [map_none, he]
    exact h
  | some row => exact hf row hr

include h in
theorem Sound.status (status : Status) :
    Sound { s with round := s.round.map fun row => { row with status := status } } d :=
  map_sound h fun row hr => h.row hr (checkRound_status (h.checked hr) status) rfl (h.round.finished row hr) fun ha => ha

theorem does_setStatus {P : State → Disk → Prop} (hs : ∀ s d, P s d → Sound s d) (status : Status) :
    Does str P (setStatus status) fun _ s d => Sound s d :=
  triple_modify fun s d _ hp => (hs s d hp).status status

/-- The last steps of a round. -/
theorem does_done {P : State → Disk → Prop} (hs : ∀ s d, P s d → Sound s d) (status : Status) (mode : Mode) :
    Does str P (do setStatus status; setMode mode) fun _ s d => Sound s d :=
  triple_bind (does_setStatus hs status) fun _ => does_setMode (fun _ _ _ h => h.mode _) mode

end Memory

/-! ## Records -/

section Records

variable {str : Json → Text} {P : State → Disk → Prop}

theorem does_extractable (hs : ∀ s d, P s d → Sound s d) (row : Remote) :
    Does str P (extractable str row) fun _ s d => P s d := by
  unfold extractable
  split
  · exact triple_pure fun s d hp => hp
  · exact does_throw hs

variable (hP : Loose P)

include hP

theorem does_reread (hs : ∀ s d, P s d → Sound s d) (id : Text) :
    Does str P (reread id) fun _ s d => P s d :=
  triple_bind (does_listRows hP hs (some id)) fun _ => triple_pure fun _ _ hp => hp.1

theorem does_record (hs : ∀ s d, P s d → Sound s d) (row : Remote) (now : ℚ) (reason : Option Text) :
    Does str P (record row now reason) fun _ s d => P s d := by
  have hask : Does str P (ask (.record row ⌊now⌋ reason)) fun _ s d => P s d ∧ True := by
    refine does_onward hP fun d x d' hk hx _ => ⟨?_, trivial⟩
    rcases hx with ⟨_, _, -, rfl, -⟩ | ⟨rfl, -⟩
    · exact hk.same rfl rfl rfl rfl rfl fun _ hi => hi
    · exact hk.refl
  exact triple_bind hask fun x => does_ofExcept (fun s d hp => hs s d hp.1) fun a _ s d hp => hp.1

theorem does_settledCandidate (hs : ∀ s d, P s d → Sound s d) (remote : Remote) :
    Does str P (settledCandidate remote) fun _ s d => P s d := by
  refine triple_ite (fun _ => triple_pure fun s d hp => hp) fun _ => ?_
  refine triple_bind (does_reread hP hs remote.id) fun found => ?_
  cases found <;> exact triple_pure fun s d hp => hp

theorem does_recordSettled (hs : ∀ s d, P s d → Sound s d) (remote : Remote) (now : ℚ) :
    Does str P (recordSettled str remote now) fun _ s d => P s d :=
  triple_bind (does_settledCandidate hP hs remote) fun candidate => triple_bind (does_extractable hs candidate) fun _ =>
    does_record hP hs candidate now none

omit hP

theorem does_richest (hs : ∀ s d, P s d → Sound s d) (sources : List Remote) (candidate : Option Remote) :
    Does str P (richest str sources candidate) fun _ s d => P s d := by
  induction sources generalizing candidate with
  | nil => exact triple_pure fun s d hp => hp
  | cons source sources ih =>
    unfold richest
    split
    · exact ih candidate
    · exact triple_bind (does_extractable hs _) fun _ => ih _

include hP

theorem does_enriched (hs : ∀ s d, P s d → Sound s d) (candidate : Option Remote)
    (sources : List Remote) : Does str P (enriched candidate sources) fun _ s d => P s d := by
  refine triple_ite (fun _ => triple_pure fun s d hp => hp) fun _ => ?_
  split
  · exact triple_pure fun s d hp => hp
  · refine triple_bind (does_reread hP hs _) fun found => ?_
    split <;> exact triple_pure fun s d hp => hp

theorem does_recordCanceled (hs : ∀ s d, P s d → Sound s d) (now : ℚ) (sources : List Remote) :
    Does str P (recordCanceled str now sources) fun _ s d => P s d := by
  refine triple_bind (does_richest hs sources none) fun candidate =>
    triple_bind (does_enriched hP hs candidate sources) fun candidate => ?_
  cases candidate with
  | none => exact does_throw hs
  | some candidate => exact triple_bind (does_extractable hs candidate) fun _ => does_record hP hs candidate now _

omit hP

theorem does_noteMalformed (status : Status) (e : Exc) :
    Does str Sound (noteMalformed status e) fun _ s d => Sound s d := by
  unfold noteMalformed
  split
  · exact does_setStatus (fun _ _ hp => hp) status
  · exact triple_ret

/-- The round is done when its statistics are malformed, and otherwise as it was. -/
theorem does_ending (status : Status) {recording : Work Bool} (hr : Does str P recording fun _ s d => P s d) :
    Does str P (ending status recording) fun _ s d => P s d :=
  triple_handle (triple_bind hr fun _ => triple_ret) fun e =>
    triple_bind (does_noteMalformed status e) fun _ => does_throw fun _ _ hp => hp

end Records

/-! ## Ending a round -/

section Endings

variable {str : Json → Text} {P : State → Disk → Prop} {row : Round} {id : Text} {remote : Remote} {d d' : Disk}
  {s : State}

theorem once_ended {log : List Entry} (h : Once log) (e : Ending) : Once (.ended e :: log) := by
  refine ⟨fun stored rejected hmem => h.1 stored rejected (by simpa using hmem), fun later row earlier hlog => ?_⟩
  cases later with
  | nil => cases hlog
  | cons x later =>
    rw [List.cons_append, List.cons.injEq] at hlog
    obtain ⟨rfl, hlog⟩ := hlog
    intro row' rejected hmem
    exact h.2 later row earlier hlog row' rejected (by simpa using hmem)

/-- A call of `end` is noted. -/
abbrev Disk.noted (d : Disk) (e : Ending) : Disk := { d with log := .ended e :: d.log }

theorem Sound.noted (h : Sound s d) (e : Ending) : Sound s (d.noted e) where
  accepted := h.accepted
  round := ⟨h.round.current, h.round.finished, fun row hrow => h.round.spent row (by simpa using hrow)⟩

theorem Known.noted (h : Known d) {e : Ending} (he : e.Faithful) : Known (d.noted e) where
  once := once_ended h.once e
  faithful := by
    intro e' hmem
    rcases List.mem_cons.mp hmem with heq | hmem
    · cases heq
      exact he
    · exact h.faithful e' hmem
  accepted := h.accepted
  round := ⟨h.round.current, h.round.finished, fun row hrow => h.round.spent row (by simpa using hrow)⟩
  created row rejected hmem := h.created row rejected (by simpa using hmem)
  fresh := h.fresh
  cleared := h.cleared

variable {status : Status} {outcome : Option Text}

theorem does_endPrediction {R : State → Disk → Prop} (hP : Steady P)
    (hs : ∀ s d, P s d → Sound s d) (hf : ∀ s d, P s d → (d.ending id status outcome).Faithful)
    (hR : ∀ s d e, P s d → R s (d.noted e)) :
    Does str P (endPrediction id status outcome) fun _ s d => R s d := by
  have hask : Does str P (ask (.end_ id status outcome)) fun _ s d => Sound s d ∧ R s d := by
    refine does_ask hP fun s d x d' hk hp hx _ => ?_
    obtain ⟨-, rfl⟩ := hx
    exact ⟨hk.noted (hf s d hp), (hs s d hp).noted _, hR s d _ hp⟩
  exact triple_bind hask fun x => does_ofExcept (fun s d hp => hp.1) fun _ _ s d hp => hp.2

/-- A round that is being ended. -/
structure Doing (row : Round) (id : Text) (remote : Remote) (s : State) (d : Disk) : Prop where
  sound : Sound s d
  memory : s.round = some row
  stored : d.stored = some row
  live : row.status.done = false
  listed : remote ∈ d.listed
  matched : isOf row remote = true
  named : remote.id = id

variable (h : Doing row id remote s d)

include h

theorem Doing.owned :
    ∃ row remote, (d.ending id status outcome).stored = some row ∧ remote ∈ (d.ending id status outcome).listed ∧
      isOf row remote = true ∧ remote.id = (d.ending id status outcome).id :=
  ⟨row, remote, h.stored, h.listed, h.matched, h.named⟩

theorem Doing.onward (ho : Onward d d') (hl : d'.listed = d.listed) :
    Doing row id remote s d' :=
  ⟨h.sound.onward ho, h.memory, ho.stored.trans h.stored, h.live, hl ▸ h.listed, h.matched, h.named⟩

omit h

/-- The outcome that is decided. -/
def Just (row : Round) (index : ℕ) (d : Disk) : Prop :=
  row.Gives index ∨ index = 0 ∧ row.Reached (d.cleared row.identity)

/-- Nothing decides an outcome, and nothing will. -/
structure Lost (row : Round) (d : Disk) : Prop where
  undecided : ∀ index, ¬ row.Gives index
  unreached : ¬ row.Reached (d.cleared row.identity)
  gone : row.identity ∈ d.past ∨ row.identity ∈ d.finished

theorem Just.onward {index : ℕ} (h : Just row index d) (ho : Onward d d') : Just row index d' :=
  h.imp_right fun ⟨hi, hr⟩ => ⟨hi, ho.reached hr⟩

/-- A target that is not reached is not reached later, when the run is gone. -/
theorem unreached_onward (ho : Onward d d') (hstored : d.stored = some row) (hlive : row.status.done = false)
    (hgone : row.identity ∈ d.past ∨ row.identity ∈ d.finished) (h : ¬ row.Reached (d.cleared row.identity)) :
    ¬ row.Reached (d'.cleared row.identity) :=
  fun hr => h (ho.waits row ⟨hstored, hlive, hr.1⟩ hgone hr)

theorem Onward.gone {i : Identity} (ho : Onward d d') (h : i ∈ d.past ∨ i ∈ d.finished) : i ∈ d'.past ∨ i ∈ d'.finished :=
  h.imp (ho.past i) (ho.finished i)

theorem Lost.onward (h : Lost row d) (ho : Onward d d') (hstored : d.stored = some row)
    (hlive : row.status.done = false) : Lost row d' :=
  ⟨h.undecided, unreached_onward ho hstored hlive h.gone h.unreached, ho.gone h.gone⟩

/-- What is known of the end of the round. -/
def Decision (row : Round) (index : Option ℕ) (d : Disk) : Prop :=
  match index with
  | some index => Just row index d
  | none => Lost row d

theorem steady_decision (index : Option ℕ) :
    Steady fun s d => Doing row id remote s d ∧ Decision row index d := by
  intro s d d' _ ho _ hl hp
  refine ⟨hp.1.onward ho hl, ?_⟩
  cases index with
  | none => exact Lost.onward hp.2 ho hp.1.stored hp.1.live
  | some index => exact Just.onward hp.2 ho

include h

theorem Doing.noted (e : Ending) : Doing row id remote s (d.noted e) :=
  ⟨h.sound.noted e, h.memory, h.stored, h.live, h.listed, h.matched, h.named⟩

theorem Doing.mode (mode : Mode) : Doing row id remote { s with mode := mode } d :=
  ⟨h.sound.mode mode, h.memory, h.stored, h.live, h.listed, h.matched, h.named⟩

omit h

theorem does_confirmed (hs : ∀ s d, P s d → Sound s d) (desired : Status) (rows : List Remote) :
    Does str P (confirmed row desired rows) fun _ s d => P s d := by
  unfold confirmed
  split
  · exact triple_ite (fun _ => triple_pure fun s d hp => hp) fun _ => does_throw hs
  · exact does_throw hs

theorem does_lockedRow (index : ℕ) : Does str (fun s d => Doing row id remote s d ∧ Just row index d)
    (lockedRow row id remote) fun _ s d => Doing row id remote s d ∧ Just row index d := by
  have hlock : Does str (fun s d => Doing row id remote s d ∧ Just row index d) (endPrediction id .LOCKED none)
      fun _ s d => Doing row id remote s d ∧ Just row index d := by
    refine does_endPrediction (steady_decision (some index)) (fun s d hp => hp.1.sound) (fun s d hp => ?_)
      fun s d e hp => ⟨hp.1.noted e, hp.2⟩
    exact ⟨hp.1.owned, nofun, nofun⟩
  refine triple_ite (fun _ => triple_bind hlock fun rows => ?_) fun _ => triple_pure fun s d hp => hp
  split <;> exact triple_pure fun s d hp => hp

theorem does_loadCancelSnapshot (hP : Steady P) (hs : ∀ s d, P s d → Sound s d) (row : Round) (id : Text) :
    Does str P (loadCancelSnapshot str row id) fun r s d =>
      P s d ∧ ∀ v, r = some v → d.snapshots id = some v ∧ noContest v = true := by
  have hask : Does str P (ask (.read_snapshot id)) fun (x : Except Exc (Option Remote)) s d =>
      P s d ∧ ∀ r, x = .ok r → r = d.snapshots id := by
    refine does_read hP fun d x d' _ hx _ => ⟨hx.1, fun r hr => ?_⟩
    rcases hx.2 with he | he <;> rw [he] at hr <;> cases hr
    rfl
  have hread (x : Except Exc (Option Remote)) : Does str (fun s d => P s d ∧ ∀ r, x = .ok r → r = d.snapshots id)
      (ofExcept x) fun r s d => P s d ∧ r = d.snapshots id :=
    does_ofExcept (fun s d hp => hs s d hp.1) fun r hr s d hp => ⟨hp.1, hp.2 r hr⟩
  refine triple_bind hask fun x => triple_bind (hread x) fun r => ?_
  cases r with
  | none => exact triple_pure fun s d hp => ⟨hp.1, fun v hv => by cases hv⟩
  | some snapshot =>
    refine triple_ite (fun hc => triple_pure fun s d hp => ⟨hp.1, fun v hv => ?_⟩)
      fun _ => does_throw fun s d hp => hs s d hp.1
    cases hv
    simp only [checkCancelSnapshot, and_eq_true] at hc
    exact ⟨hp.2.symm, hc.1.2⟩

theorem does_storeSnapshot (hP : Steady P) (hs : ∀ s d, P s d → Sound s d)
    (hw : ∀ s d f, P s d → P s { d with snapshots := f }) (id : Text) {snapshot : Option Remote}
    (hn : ∀ v, snapshot = some v → noContest v = true) : Does str P (storeSnapshot id snapshot) fun v s d =>
      P s d ∧ d.snapshots id = some v ∧ noContest v = true := by
  cases snapshot with
  | none => exact does_throw hs
  | some snapshot =>
    have hfits : Does str P (snapshotFits snapshot) fun _ s d => P s d ∧ True :=
      does_read hP fun d x d' _ hx _ => ⟨hx, trivial⟩
    have hwrite : Does str P (tryWriteSnapshot id snapshot) fun (x : Except Exc Unit) s d =>
        P s d ∧ (x = .ok () → d.snapshots id = some snapshot) := by
      refine does_ask hP fun s d x d' hk hp hx _ => ?_
      have hnew : Known { d with snapshots := Function.update d.snapshots id (some snapshot) } :=
        hk.onward (hk.same rfl rfl rfl rfl rfl fun _ hi => hi)
      rcases hx with ⟨rfl, -⟩ | ⟨rfl, rfl⟩
      · exact ⟨hnew, hw s d _ hp, fun _ => Function.update_self ..⟩
      · exact ⟨hk, hp, fun he => by cases he⟩
    refine triple_bind hfits fun fits => triple_ite (fun _ => ?_) fun _ => does_throw fun s d hp => hs s d hp.1
    refine triple_bind (hwrite.pre fun s d hp => hp.1) fun x => ?_
    cases x with
    | ok => exact triple_pure fun s d hp => ⟨hp.1, hp.2 rfl, hn _ rfl⟩
    | error => exact does_throw fun s d hp => hs s d hp.1

/-- The snapshot proves that there was no contest, and is stored. -/
theorem does_saveCancelSnapshot (hP : Steady P) (hs : ∀ s d, P s d → Sound s d)
    (hw : ∀ s d f, P s d → P s { d with snapshots := f }) (row : Round) (id : Text) (remote : Remote) :
    Does str P (saveCancelSnapshot str row id remote) fun v s d =>
      P s d ∧ d.snapshots id = some v ∧ noContest v = true := by
  refine triple_ite (fun _ => does_throw hs) fun _ => ?_
  refine triple_bind (does_loadCancelSnapshot hP hs row id) fun existing => ?_
  cases existing with
  | some existing => exact triple_pure fun s d hp => ⟨hp.1, hp.2 existing rfl⟩
  | none =>
    refine (does_storeSnapshot hP hs hw id fun v hv => ?_).pre fun s d hp => hp.1
    have hcheck : checkCancelSnapshot str v row = true := (filter_eq_some_iff.mp hv).2
    simp only [checkCancelSnapshot, and_eq_true] at hcheck
    exact hcheck.1.2

theorem does_unlinkSnapshot (hs : ∀ s d, P s d → Sound s d) (id : Text) :
    Does str P (unlinkSnapshot id) fun _ s d => Sound s d := by
  have hask : Does str Sound (ask (.unlink_snapshot id)) fun _ s d => Sound s d ∧ True :=
    does_onward loose_sound fun d x d' hk hx _ => ⟨hx.onward hk (hk.same rfl rfl rfl rfl rfl fun _ hi => hi), trivial⟩
  exact (triple_bind hask fun x => does_ofExcept (fun s d hp => hp.1) fun _ _ s d hp => hp.1 :
    Does str Sound _ _).pre hs

/-- The round is ended as it has to be. -/
theorem does_conclude (now : ℚ) {index : Option ℕ} :
    Does str (fun s d => Doing row id remote s d ∧ Decision row index d) (conclude str now row id remote index)
      fun _ s d => Sound s d := by
  have hsave : Does str (fun s d => Doing row id remote s d ∧ Decision row index d) saveLedger
      fun _ s d => Doing row id remote s d ∧ Decision row index d := by
    refine does_saveLedger (steady_decision index) (fun s d hp => hp.1.sound) fun s d _ hp => ⟨?_, ?_⟩
    · exact ⟨hp.1.sound.congr rfl rfl rfl rfl,
        hp.1.memory, hp.1.memory, hp.1.live, hp.1.listed, hp.1.matched, hp.1.named⟩
    · cases index with
      | none => exact ⟨hp.2.undecided, hp.2.unreached, hp.2.gone⟩
      | some index => exact hp.2
  refine triple_bind (does_setMode (fun s d mode hp => ⟨hp.1.mode mode, hp.2⟩) .settling) fun _ =>
    triple_bind hsave fun _ => ?_
  cases index with
  | none =>
    have hcancel : Does str (fun s d => Doing row id remote s d ∧ Decision row none d)
        (endPrediction id .CANCELED none) fun _ s d => Sound s d := by
      refine does_endPrediction (steady_decision none) (fun s d hp => hp.1.sound) (fun s d hp => ?_)
        fun s d e hp => hp.1.sound.noted e
      refine ⟨hp.1.owned, (fun he => by cases he), fun _ => .inr fun r hr => ?_⟩
      obtain rfl := some.inj (hp.1.stored.symm.trans hr)
      refine ⟨hp.2.undecided, fun hreached => hp.2.unreached ?_⟩
      simpa [Disk.ending, hp.1.stored] using hreached
    exact triple_bind hcancel fun rows => triple_bind (does_confirmed (fun _ _ hp => hp) .CANCELED rows) fun _ =>
      does_done (fun _ _ hp => hp) .CANCELED .canceled
  | some index =>
    refine triple_bind (does_lockedRow index) fun settled_from => triple_ite (fun _ => ?_) fun _ => ?_
    · have hsaved : Does str (fun s d => Doing row id remote s d ∧ Decision row (some index) d)
          (saveCancelSnapshot str row id settled_from) fun v s d =>
            (Doing row id remote s d ∧ Decision row (some index) d) ∧ d.snapshots id = some v ∧ noContest v = true :=
        does_saveCancelSnapshot (steady_decision (some index)) (fun s d hp => hp.1.sound)
          (fun s d f hp => ⟨⟨hp.1.sound.congr rfl rfl rfl rfl, hp.1.memory, hp.1.stored, hp.1.live, hp.1.listed,
            hp.1.matched, hp.1.named⟩, hp.2⟩) row id settled_from
      refine triple_bind hsaved fun snapshot => ?_
      have hcancel : Does str (fun s d => (Doing row id remote s d ∧ Decision row (some index) d) ∧
          d.snapshots id = some snapshot ∧ noContest snapshot = true) (endPrediction id .CANCELED none)
          fun _ s d => Sound s d := by
        refine does_endPrediction ?_ (fun s d hp => hp.1.1.sound) (fun s d hp => ?_)
          fun s d e hp => hp.1.1.sound.noted e
        · exact (steady_decision (some index)).and fun s d d' _ _ hsn _ hp => ⟨hsn ▸ hp.1, hp.2⟩
        · exact ⟨hp.1.1.owned, (fun he => by cases he), fun _ => .inl ⟨snapshot, hp.2⟩⟩
      have hrecord (response : Remote) : Does str Sound (ending .CANCELED (recordCanceled str now [response, snapshot]))
          fun _ s d => Sound s d :=
        does_ending .CANCELED (does_recordCanceled loose_sound (fun _ _ hp => hp) now [response, snapshot])
      exact triple_bind hcancel fun rows =>
        triple_bind (does_confirmed (fun _ _ hp => hp) .CANCELED rows) fun response =>
        triple_bind (hrecord response) fun _ => triple_bind (does_unlinkSnapshot (fun _ _ hp => hp) id) fun _ =>
          does_done (fun _ _ hp => hp) .CANCELED .canceled
    · split
      · exact does_throw fun s d hp => hp.1.sound
      · next outcome houtcome =>
        have hresolve : Does str (fun s d => Doing row id remote s d ∧ Just row index d)
            (endPrediction id .RESOLVED (some outcome)) fun _ s d => Sound s d := by
          refine does_endPrediction (steady_decision (some index)) (fun s d hp => hp.1.sound) (fun s d hp => ?_)
            fun s d e hp => hp.1.sound.noted e
          refine ⟨hp.1.owned, fun _ => ⟨row, index, hp.1.stored, ⟨outcome, rfl, houtcome⟩, ?_⟩, fun he => by cases he⟩
          simpa [Disk.ending, hp.1.stored, Just] using hp.2
        exact triple_bind hresolve fun rows => triple_bind (does_confirmed (fun _ _ hp => hp) .RESOLVED rows)
          fun response => triple_bind (does_ending .RESOLVED (does_recordSettled loose_sound (fun _ _ hp => hp) response
            now)) fun _ => does_done (fun _ _ hp => hp) .RESOLVED .resolved

end Endings

end Docich.HanjukuWager
