import Docich.GameSwitch.Replay
import Docich.PuyoProgram.Stops

/-!
# When the corner can be released

- `Coordinator`, `SwitchCall.toCall`: the game switch behind the calls of the manager, as it answers when nobody else is at work;
- `Move`, `play`: the calls for the stored request, and `stop`, one after the other;
- `Quiet`: the game switch is at rest, without the view, and the start of the stored request is over;
- `Freed`: what decides whether the corner can be released then.
-/

namespace Docich.PuyoProgram

open Option List

open GameSwitch (RequestId GameName ActiveIdentity Canonical ValidState Receipt Receipts SwitchResult SwitchStatus)
open Durable.Owning (alone alone_ok alone_error alone_attempt alone_ofExcept)

/-! ## The game switch -/

/-- `payload={"expected_source": …}` -/
def expectedSource (i : ActiveIdentity) : GameSwitch.Payload := { expectedSource := some (.runtime i.game i.id i.id.generation i.lease) }

def SwitchCall.operation : SwitchCall → GameSwitch.Operation
  | .start _ _ => .start
  | .switch _ _ _ => .switch
  | .stop _ _ => .stop

def SwitchCall.payload : SwitchCall → GameSwitch.Payload
  | .start _ _ => {}
  | .switch _ _ i | .stop _ i => expectedSource i

def SwitchCall.toCall : SwitchCall → GameSwitch.Call
  | .start game request => .start game request none {} true
  | .switch game request i => .switch game request none (expectedSource i) true
  | .stop request i => .stop request none (expectedSource i)

/-- A coordinator with its request timeout, and what no file answers. -/
structure Coordinator where
  cfg : GameSwitch.Config
  timed : 0 < cfg.defaultTimeout
  host : GameSwitch.Host

/-- A call of the game switch, with nobody else at work. -/
def Coordinator.answer (C : Coordinator) (plane : Plane) (c : SwitchCall) : Except Exc SwitchResult × Plane :=
  let s := alone (GameSwitch.serve C.host) (GameSwitch.callProgram C.cfg c.toCall) (false, plane)
  (s.1.mapError .switch, s.2.2)

/-! ## The calls for the stored request -/

inductive Move
  | run (cfg : Config) (rounds : ℕ)
  | reconcile
  | settle
  | stop

/-- The files after a call that ends, with nobody else at work. -/
def play (C : Coordinator) (request : RequestId) (d : Disk) : Move → Disk
  | .run cfg rounds => (alone (obliging C.answer) (program (.run cfg rounds request)) d).2
  | .reconcile => (alone (obliging C.answer) (program (.reconcile request)) d).2
  | .settle => (alone (obliging C.answer) (program (.settle request)) d).2
  | .stop =>
    if d.state.status.stoppable then { d with stop := some ⟨d.state.rotation_request_id, d.state.rotation_request_id⟩ } else d

/-- Some calls for the stored request release the corner. -/
def Releasable (C : Coordinator) (d : Disk) : Prop :=
  d.state.status.released = true ∨
  ∃ request, d.state.rotation_request_id = some request ∧ ∃ moves : List Move, (moves.foldl (play C request) d).state.status.released = true

/-! ## The condition -/

/-- The canonical state is stable and does not show the view, no request is queued, and the start receipt of the stored request is
terminal or was never written. -/
structure Quiet (d : Disk) (c : ValidState) : Prop where
  canonical : d.plane.canonical = some c
  stable : stable c.1 = true
  view : ∀ active, c.1.active = some active → active.spec.game ≠ VIEW_NAME
  queued : Receipts.queued d.plane.receipts = []
  receipt : ∀ request r, d.state.rotation_request_id = some request → d.plane.receipts.lookup request = some r → r.status.isTerminal = true

/-- Another game is active, and no deadline is left. -/
def settles (c : Canonical) : Prop := c.deadlineAt = none ∧ c.active.isSome = true

/-- The answer to the start, asked again. -/
def startAgain (s : State) (request : RequestId) (c : Canonical) (r : Receipt) : SwitchResult :=
  GameSwitch.replayed request (startCall s request).operation VIEW_NAME (startCall s request).payload c r

/-- What is proved of a start that has a receipt. -/
def FreedBy (s : State) (request : RequestId) (c : Canonical) (r : Receipt) : Prop :=
  neverStarted s request r c = true ∨
  if s.status = .starting ∧ (startAgain s request c r).status = .succeeded then
    ∃ i, startedIdentity request (startAgain s request c r) = .ret i
  else settles c

/-- The run shows its view or is over, its start was never taken up, or the start is provably over. -/
def Freed (d : Disk) (c : Canonical) : Prop :=
  d.state.status.starts = true → ∃ request, d.state.rotation_request_id = some request ∧
    match d.plane.receipts.lookup request with
    | none => d.state.status = .starting ∨ settles c
    | some r => FreedBy d.state request c r

variable {C : Coordinator} {d : Disk} {c : ValidState} {s : State} {request : RequestId} {r : Receipt}

theorem startCall_names : (startCall s request).operation.names := by
  unfold startCall
  cases s.previous_runtime_identity
  · exact .inl rfl
  · exact .inr rfl

theorem callProgram_start {cfg : GameSwitch.Config} : GameSwitch.callProgram cfg (startCall s request).toCall =
    GameSwitch.execute cfg (startCall s request).operation (some VIEW_NAME) [] request none (startCall s request).payload true := by
  unfold startCall
  cases s.previous_runtime_identity <;> rfl

variable {canonical : Canonical}

theorem stable_phase (h : stable canonical = true) : canonical.phase.stable = true := by
  simp only [stable, Bool.and_eq_true] at h
  exact h.1.1.1

variable (h : Quiet d c)

include h

theorem Quiet.resting : GameSwitch.Resting d.plane c := ⟨h.canonical, stable_phase h.stable, h.queued⟩

/-- The start, asked again. -/
theorem Quiet.answer (hr : d.plane.receipts.lookup request = some r) (hterminal : r.status.isTerminal = true) :
    C.answer d.plane (startCall s request) = (.ok (startAgain s request c.1 r), d.plane) := by
  unfold Coordinator.answer
  rw [callProgram_start, GameSwitch.execute_replayed h.resting hr hterminal C.timed startCall_names h.view]
  rfl

omit h

/-! ## Calls that are answered at once -/

variable {q : Ask} {α β : Type} {x : M α} {d' : Disk} {reason : EndReason} {f : α → β}
    {i : ActiveIdentity} {rounds : ℕ} {cfg : Config}

theorem alone_call {d : Disk} : alone (obliging C.answer) (call q) d = (.ok (obliging C.answer q d).1, (obliging C.answer q d).2) := rfl

theorem alone_require {p : Bool} {text : String} (hp : p = true) : alone (obliging C.answer) (require p text) d = (.ok (), d) := by
  rw [require, if_pos hp]
  rfl

/-- The corner is released when this ends. -/
def Frees (C : Coordinator) {α : Type} (x : M α) (d : Disk) : Prop := (alone (obliging C.answer) x d).2.state.status.released = true

theorem Frees.after {f : α → M β} {d : Disk} {a : α} (hx : alone (obliging C.answer) x d = (.ok a, d'))
    (hf : Frees C (f a) d') : Frees C (x >>= f) d := by
  rw [Frees, alone_ok hx]
  exact hf

theorem Frees.asked {f : q.Answer → M β} {d : Disk} (hf : Frees C (f (obliging C.answer q d).1) (obliging C.answer q d).2) :
    Frees C (call q >>= f) d := Frees.after alone_call hf

theorem frees_markInterrupted : Frees C (markInterrupted s reason) d := rfl

/-- What follows without a question keeps the state. -/
theorem Frees.bind_pure (hx : Frees C x d) : Frees C (x >>= fun a => pure (f a)) d := by
  unfold Frees at hx ⊢
  rw [Durable.Owning.alone_bind]
  split
  · next h =>
    rw [h] at hx
    exact hx
  · next h =>
    rw [h] at hx
    exact hx

/-! ## A run that shows its view -/

theorem unmatched (hview : ∀ active, canonical.active = some active → active.spec.game ≠ VIEW_NAME)
    (hi : i.game = VIEW_NAME) : matchesActive canonical i = false := by
  unfold matchesActive
  cases hactive : canonical.active with
  | none => rfl
  | some active =>
    refine decide_eq_false fun h => hview active hactive ?_
    rw [← hi, ← h]
    rfl

theorem alone_restoreReceiptFinished :
    ∃ b, alone (obliging C.answer) (restoreReceiptFinished s canonical) d = (.ok b, d) := by
  unfold restoreReceiptFinished
  split
  · exact ⟨false, rfl⟩
  · next request _ =>
    rw [alone_ok alone_call]
    simp only [obliging]
    split
    · exact ⟨_, rfl⟩
    · exact ⟨false, rfl⟩

theorem frees_restoreFrom {run : RequestId} (hstable : stable canonical = true)
    (hmatch : matchesActive canonical i = false) : Frees C (restoreFrom s i run request canonical) d := by
  obtain ⟨b, hb⟩ : ∃ b, alone (obliging C.answer) (restoreReceiptFinished s canonical) d = (.ok b, d) := alone_restoreReceiptFinished
  refine Frees.after hb ?_
  cases b with
  | true => rfl
  | false =>
    rw [if_neg Bool.false_ne_true, if_neg (by rw [hmatch]; exact Bool.false_ne_true), if_pos hstable]
    exact frees_markInterrupted

include h

theorem Quiet.state : d.plane.state = c.1 := by
  rw [GameSwitch.Disk.state, h.canonical]
  rfl

theorem frees_restore (hshape : Shape s) (hshows : s.status.shows = true) :
    Frees C (restore s reason) d := by
  obtain ⟨i, hi, hgame⟩ := hshape.view hshows
  obtain ⟨run, hrun⟩ := isSome_iff_exists.mp (hshape.owned (Shape.busy (.inr hshows)))
  have hmatch := unmatched h.view hgame
  unfold restore
  rw [hi, hrun]
  refine Frees.after (alone_require (decide_eq_true hgame)) ?_
  obtain ⟨s', d', again, hrestoring, hplane, hrestore, hswitch⟩ : ∃ s' d' again,
      alone (obliging C.answer) (restoring s reason) d = (.ok s', d') ∧ d'.plane = d.plane ∧
        s'.restore_request_id = some again ∧ s'.switch_request_id = some again := by
    unfold restoring
    by_cases hstatus : s.status = .restoring
    · rw [if_pos hstatus]
      obtain ⟨hsome, hswitch⟩ := hshape.restore hstatus
      obtain ⟨again, hagain⟩ := isSome_iff_exists.mp hsome
      exact ⟨s, d, again, rfl, rfl, hagain, hswitch.trans hagain⟩
    · rw [if_neg hstatus]
      exact ⟨restoringState s 0 reason ⟨0⟩, _, ⟨0⟩, rfl, rfl, rfl, rfl⟩
  refine Frees.after hrestoring ?_
  rw [hrestore]
  refine Frees.after (alone_require (decide_eq_true hswitch)) ?_
  have hcanonical : alone (obliging C.answer) (orRaise (call .canonical)) d' = (.ok (some c.1), d') := by
    rw [orRaise, alone_ok alone_call, alone_ofExcept]
    simp only [obliging, hplane, h.state]
  exact Frees.after hcanonical (frees_restoreFrom h.stable hmatch)

omit h

/-- What is quiet does not depend on the stop request and the record. -/
theorem Quiet.congr (h : Quiet d c) (hplane : d'.plane = d.plane) (hrun : d'.state.rotation_request_id = d.state.rotation_request_id) :
    Quiet d' c := by
  refine ⟨hplane ▸ h.canonical, h.stable, h.view, hplane ▸ h.queued, fun request r hr hreceipt => ?_⟩
  rw [hrun] at hr
  rw [hplane] at hreceipt
  exact h.receipt request r hr hreceipt

include h in
theorem alone_canonical : alone (obliging C.answer) (orRaise (call .canonical)) d = (.ok (some c.1), d) := by
  rw [orRaise, alone_ok alone_call, alone_ofExcept]
  simp only [obliging, h.state]

theorem phase_idle_or_ready (h : stable canonical = true) : canonical.phase = .idle ∨ canonical.phase = .ready := by
  simpa [GameSwitch.Phase.stable] using stable_phase h

include h in
theorem frees_waitAndRestore (hshape : Shape s) (hstatus : s.status = .active) {poll : ℚ} :
    Frees C (waitAndRestore poll (rounds + 1) s) d := by
  have hshows : s.status.shows = true := by rw [hstatus]; rfl
  obtain ⟨i, hi, hgame⟩ := hshape.view hshows
  obtain ⟨run, hrun⟩ := isSome_iff_exists.mp (hshape.owned (Shape.busy (.inr hshows)))
  unfold waitAndRestore
  rw [hi, hrun]
  refine Frees.after (alone_require (decide_eq_true hgame)) (Frees.asked ?_)
  have hseen : Quiet (obliging C.answer (.stopRequested run) d).2 c := h.congr rfl rfl
  split
  · exact frees_restore hseen hshape hshows
  refine Frees.after (alone_canonical hseen) ?_
  dsimp only
  rw [if_neg, if_neg, if_neg, if_pos]
  · exact frees_markInterrupted
  · rw [unmatched h.view hgame]
    rfl
  · rw [h.stable]
    exact Bool.false_ne_true
  · rcases phase_idle_or_ready h.stable with hp | hp <;> rw [hp] <;> simp
  · rcases phase_idle_or_ready h.stable with hp | hp <;> rw [hp] <;> simp

/-! ## Runs of the stored request -/

theorem alone_readState : alone (obliging C.answer) (orRaise (call .readState)) d = (.ok d.state, d) := rfl

theorem frees_run (hrun : d.state.rotation_request_id = some request)
    (h : Frees C (match d.state.status with
      | .completed | .interrupted => pure .completed
      | .starting => resumeStart cfg rounds request d.state
      | .active => waitAndRestore cfg.poll rounds d.state
      | .restoring => restore d.state .duration
      | _ => fail " rotation owner needs recovery") d) :
    (play C request d (.run cfg rounds)).state.status.released = true := by
  have hrotation : Frees C (runRotation cfg rounds request) d := by
    refine Frees.after alone_readState ?_
    rw [if_pos hrun]
    exact h
  exact hrotation.bind_pure

variable (hshape : Shape d.state)

include hshape

include h in
theorem releasable_shows (hshows : d.state.status.shows = true) : Releasable C d := by
  obtain ⟨run, hrun⟩ := isSome_iff_exists.mp (hshape.owned (Shape.busy (.inr hshows)))
  refine .inr ⟨run, hrun, [.run ⟨1, 1⟩ 1], frees_run hrun ?_⟩
  by_cases hstatus : d.state.status = .active
  · rw [hstatus]
    exact frees_waitAndRestore h hshape hstatus
  · have hrestoring : d.state.status = .restoring := by
      by_contra hne
      exact hstatus (active_of_shows hshows hne)
    rw [hrestoring]
    exact frees_restore h hshape hshows

/-- A start that was never taken up is stopped. -/
theorem releasable_unreceived (hstatus : d.state.status = .starting)
    (hrun : d.state.rotation_request_id = some request) (hr : d.plane.receipts.lookup request = none) : Releasable C d := by
  obtain ⟨hstart, hswitch⟩ := hshape.start (by rw [hstatus]; rfl)
  rw [hrun] at hstart hswitch
  have hstop : play C request d .stop = { d with stop := some ⟨some request, some request⟩ } := by
    rw [play, if_pos (by rw [hstatus]; rfl), hrun]
  refine .inr ⟨request, hrun, [.stop, .run ⟨1, 1⟩ 1], ?_⟩
  rw [foldl_cons, hstop]
  refine frees_run (d := { d with stop := some ⟨some request, some request⟩ }) hrun ?_
  rw [hstatus]
  refine Frees.asked ?_
  split
  case isFalse hnot => exact absurd rfl hnot
  rw [hswitch]
  refine Frees.after (alone_require (decide_eq_true hstart)) (Frees.asked ?_)
  simp only [obliging, hr]
  exact frees_markInterrupted

omit hshape

/-! ## The start, asked again -/

include h in
theorem alone_dispatched (hr : d.plane.receipts.lookup request = some r) (hterminal : r.status.isTerminal = true) :
    ∃ d', d'.plane = d.plane ∧ d'.state = d.state ∧ d'.stop = d.stop ∧ d'.begun = d.begun ∧
      alone (obliging C.answer) (orRaise (call (.dispatch request (startCall s request)))) d = (.ok (startAgain s request c.1 r), d') := by
  have hanswer := h.answer (C := C) (s := s) hr hterminal
  refine ⟨(obliging C.answer (.dispatch request (startCall s request)) d).2, ?_, rfl, rfl, rfl, ?_⟩
  · simp only [obliging, hanswer]
  · rw [orRaise, alone_ok alone_call, alone_ofExcept]
    simp only [obliging, hanswer]

/-- A terminal receipt leaves nothing to wait for. -/
theorem startAgain_over (hterminal : r.status.isTerminal = true) :
    (startAgain s request canonical r).status ∉ PENDING_SWITCH_STATUSES := by
  have hreceipt : (GameSwitch.resultFromReceipt request r).status ∉ PENDING_SWITCH_STATUSES := by
    cases hstatus : r.status with
    | terminal status result => simp only [GameSwitch.resultFromReceipt, hstatus]; cases status <;> decide
    | allocating => rw [hstatus] at hterminal; cases hterminal
    | accepted => rw [hstatus] at hterminal; cases hterminal
    | queued => rw [hstatus] at hterminal; cases hterminal
  unfold startAgain GameSwitch.replayed GameSwitch.answered
  split
  · exact (by decide : SwitchStatus.failed ∉ PENDING_SWITCH_STATUSES)
  · split
    · exact hreceipt
    · exact (by decide : SwitchStatus.requestConflict ∉ PENDING_SWITCH_STATUSES)

theorem startedIdentity_or (request : RequestId) (x : SwitchResult) :
    (∃ i, startedIdentity request x = .ret i ∧ i.game = VIEW_NAME) ∨ ∃ e, startedIdentity request x = .raise e := by
  unfold startedIdentity
  split
  · exact .inr ⟨_, rfl⟩
  · split
    · split
      · split
        · next hgame => exact .inl ⟨_, rfl, hgame.1⟩
        · exact .inr ⟨_, rfl⟩
      · exact .inr ⟨_, rfl⟩
    · exact .inr ⟨_, rfl⟩

/-- How the start ends when it is asked again. -/
inductive Again (request : RequestId) (x : SwitchResult) (d d' : Disk) : Prop
  | moved : x.status = .succeeded → (∃ i, startedIdentity request x = .ret i) → d'.state.status.released = true → Again request x d d'
  | stuck : x.status = .succeeded → (¬ ∃ i, startedIdentity request x = .ret i) → d'.state = d.state → d'.plane = d.plane → Again request x d d'
  | failed : x.status ≠ .succeeded → d'.state = failedStart d.state 0 x → d'.plane = d.plane → Again request x d d'

include h in
theorem again_dispatchAndWait (hstart : d.state.start_request_id = some request)
    (hrun : d.state.rotation_request_id = some request) (hr : d.plane.receipts.lookup request = some r) (hterminal : r.status.isTerminal = true)
    :
    Again request (startAgain d.state request c.1 r) d (alone (obliging C.answer) (dispatchAndWait cfg rounds d.state) d).2 := by
  obtain ⟨d', hplane, hstate, -, -, hanswer⟩ := alone_dispatched (C := C) (s := d.state) h hr hterminal
  have hdispatch : alone (obliging C.answer) (dispatchStart cfg.duration d.state) d =
      alone (obliging C.answer) (if (startAgain d.state request c.1 r).status ≠ .succeeded then do
          let now ← call .clock
          save (failedStart d.state now (startAgain d.state request c.1 r))
          fail " view start did not succeed"
        else do
          let i ← startedIdentity request (startAgain d.state request c.1 r)
          let canonical ← orRaise (call .canonical)
          confirmStart cfg.duration d.state i canonical) d' := by
    unfold dispatchStart
    rw [hstart]
    refine (alone_ok (alone_require (decide_eq_true hrun))).trans ((alone_ok hanswer).trans ?_)
    rw [if_neg (startAgain_over hterminal)]
  unfold dispatchAndWait
  rw [Durable.Owning.alone_bind, hdispatch]
  by_cases hstatus : (startAgain d.state request c.1 r).status = .succeeded
  · rw [if_neg (not_not.mpr hstatus)]
    rcases startedIdentity_or request (startAgain d.state request c.1 r) with ⟨i, hi, hgame⟩ | ⟨e, he⟩
    · rw [hi]
      have hquiet : Quiet d' c := h.congr hplane (by rw [hstate])
      have hconfirm : alone (obliging C.answer) (Durable.Program.ret i >>= fun i => do
          let canonical ← orRaise (call .canonical)
          confirmStart cfg.duration d.state i canonical) d' =
          alone (obliging C.answer) (do
            let outcome ← markInterrupted d.state .operator_moved_after_start
            pure (.error outcome)) d' := by
        refine (alone_ok (alone_canonical hquiet)).trans ?_
        unfold confirmStart
        dsimp only
        rw [unmatched h.view hgame, if_neg (by simp), if_pos h.stable]
      rw [hconfirm]
      exact .moved hstatus ⟨i, hi⟩ rfl
    · rw [he]
      exact .stuck hstatus (by rw [he]; rintro ⟨i, hi⟩; cases hi) hstate hplane
  · rw [if_pos hstatus]
    exact .failed hstatus rfl hplane

theorem Again.congr {x : SwitchResult} {d₁ : Disk} (h : Again request x d₁ d') (hstate : d₁.state = d.state) (hplane : d₁.plane = d.plane) :
    Again request x d d' := by
  cases h with
  | moved hstatus hi hreleased => exact .moved hstatus hi hreleased
  | stuck hstatus hi hs hp => exact .stuck hstatus hi (hs.trans hstate) (hp.trans hplane)
  | failed hstatus hs hp => exact .failed hstatus (by rw [hs, hstate]) (hp.trans hplane)

theorem alone_snd_pure :
    (alone (obliging C.answer) (x >>= fun a => pure (f a)) d).2 = (alone (obliging C.answer) x d).2 := by
  rw [Durable.Owning.alone_bind]
  split
  · next h => rw [h]; rfl
  · next h => rw [h]

include hshape in
include h in
/-- The run of a start that has a terminal receipt. -/
theorem again_run (hstatus : d.state.status = .starting)
    (hrun : d.state.rotation_request_id = some request) (hr : d.plane.receipts.lookup request = some r) (hterminal : r.status.isTerminal = true)
    :
    Again request (startAgain d.state request c.1 r) d (play C request d (.run cfg rounds)) := by
  obtain ⟨hstart, hswitch⟩ := hshape.start (by rw [hstatus]; rfl)
  rw [hrun] at hstart hswitch
  have hprogram : play C request d (.run cfg rounds) =
      (alone (obliging C.answer) (resumeStart cfg rounds request d.state) d).2 := by
    have hrotation : alone (obliging C.answer) (runRotation cfg rounds request) d =
        alone (obliging C.answer) (resumeStart cfg rounds request d.state) d := by
      refine (alone_ok alone_readState).trans ?_
      rw [if_pos hrun, hstatus]
    rw [play, ← hrotation]
    exact alone_snd_pure
  rw [hprogram, resumeStart, alone_ok alone_call]
  have hseen : ∀ {cfg : Config} {rounds : ℕ}, Again request (startAgain d.state request c.1 r) d
      (alone (obliging C.answer) (dispatchAndWait cfg rounds d.state) (obliging C.answer (.stopRequested request) d).2).2 := by
    intro cfg rounds
    have hquiet : Quiet (obliging C.answer (.stopRequested request) d).2 c := h.congr rfl rfl
    exact (again_dispatchAndWait hquiet hstart hrun hr hterminal).congr rfl rfl
  split
  · rw [hswitch]
    dsimp only
    rw [alone_ok (alone_require (decide_eq_true hstart)), alone_ok alone_call]
    simp only [obliging, hr]
    exact hseen
  · exact hseen

/-! ## The reconcilers -/

theorem alone_orFalse {caught : GameSwitch.Exc → Bool} {x : M Bool} {b : Bool}
    (hx : alone (obliging C.answer) x d = (.ok b, d')) : alone (obliging C.answer) (orFalse caught x) d = (.ok b, d') := by
  have hattempt : alone (obliging C.answer) x.attempt d = (.ok (.ok b), d') := by rw [alone_attempt, hx]
  exact (alone_ok hattempt).trans rfl

theorem alone_lockStore : alone (obliging C.answer) (call .lockStore) d = (.ok true, d) := rfl

theorem alone_receipt {request : RequestId} :
    alone (obliging C.answer) (orRaise (call (.receipt request))) d = (.ok (d.plane.receipts.lookup request), d) := rfl

include h

theorem alone_loadCanonical : alone (obliging C.answer) (orRaise (call .loadCanonical)) d = (.ok (some c.1), d) := by
  rw [orRaise, alone_ok alone_call, alone_ofExcept]
  simp only [obliging, h.canonical, map_some]

theorem alone_queued : alone (obliging C.answer) (orRaise (call .queued)) d = (.ok [], d) := by
  rw [orRaise, alone_ok alone_call, alone_ofExcept]
  simp only [obliging, h.queued, map_nil]

include hshape in
/-- A start that is provably over is retired. -/
theorem reconciled (hstarts : d.state.status.starts = true)
    (hrun : d.state.rotation_request_id = some request) (hr : d.plane.receipts.lookup request = some r)
    (hnever : neverStarted d.state request r c.1 = true) : (play C request d .reconcile).state.status.released = true := by
  obtain ⟨hstart, hswitch⟩ := hshape.start hstarts
  rw [hrun] at hstart hswitch
  have hstatus : d.state.status = .starting ∨ d.state.status = .failed := by
    cases hs : d.state.status <;> rw [hs] at hstarts <;> first | exact .inl rfl | exact .inr rfl | cases hstarts
  have hbody : alone (obliging C.answer) (reconcileFailedStart request) d = (.ok true,
      { d with
        state := interrupted d.state (d.state.completed_at.getD 0) .switch_terminal_before_corner_active
        begun := beginning d (interrupted d.state (d.state.completed_at.getD 0) .switch_terminal_before_corner_active)
        stop := none }) := by
    refine alone_orFalse ?_
    refine (alone_ok alone_lockStore).trans ?_
    refine (alone_ok alone_readState).trans ?_
    rw [if_pos ⟨hstatus, hrun, hstart, hswitch⟩]
    refine (alone_ok alone_receipt).trans ((alone_ok (alone_loadCanonical h)).trans ?_)
    rw [hr]
    dsimp only
    rw [if_pos hnever]
    rfl
  rw [play, program, hbody]
  rfl

/-- Otherwise nothing changes. -/
theorem not_reconciled (hnever : ∀ r, d.plane.receipts.lookup request = some r → neverStarted d.state request r c.1 = false) :
    play C request d .reconcile = d := by
  have hbody : alone (obliging C.answer) (reconcileFailedStart request) d = (.ok false, d) := by
    refine alone_orFalse ?_
    refine (alone_ok alone_lockStore).trans ?_
    refine (alone_ok alone_readState).trans ?_
    split
    · refine (alone_ok alone_receipt).trans ((alone_ok (alone_loadCanonical h)).trans ?_)
      cases hr : d.plane.receipts.lookup request with
      | none => rfl
      | some r =>
        dsimp only
        rw [hnever r hr]
        rfl
    · rfl
  rw [play, program, hbody]

include hshape in
/-- A failure is retired while another game is active. -/
theorem settled_released (hstatus : d.state.status = .failed)
    (hrun : d.state.rotation_request_id = some request) (hsettles : settles c.1) :
    (play C request d .settle).state.status.released = true := by
  obtain ⟨hat, hidentity, -⟩ := hshape.unstarted (by rw [hstatus]; rfl)
  obtain ⟨hoperation, hrequest⟩ := (GameSwitch.validateState_ok.mp c.2).unowned (stable_phase h.stable)
  obtain ⟨active, hactive⟩ := isSome_iff_exists.mp hsettles.2
  have hother : c.1.active.any (fun active => active.spec.game ≠ VIEW_NAME) = true := by
    rw [hactive]
    exact decide_eq_true (h.view active hactive)
  have hreceipt : (d.plane.receipts.lookup request).all (fun r => r.status.isTerminal) = true := by
    cases hr : d.plane.receipts.lookup request with
    | none => rfl
    | some r => exact h.receipt request r hrun hr
  have hbody : alone (obliging C.answer) (settleReleasedFailure request) d = (.ok true,
      { d with state := settled d.state 0, begun := beginning d (settled d.state 0), stop := none }) := by
    refine alone_orFalse ?_
    refine (alone_ok alone_lockStore).trans ?_
    refine (alone_ok alone_readState).trans ?_
    rw [if_pos ⟨hstatus, hrun, hat, hidentity⟩]
    refine (alone_ok (alone_loadCanonical h)).trans ?_
    dsimp only
    rw [if_pos ⟨h.stable, hoperation, hrequest, hsettles.1, hother⟩]
    refine (alone_ok alone_receipt).trans ?_
    rw [if_pos hreceipt]
    refine (alone_ok (alone_queued h)).trans ?_
    rw [if_neg not_mem_nil]
    rfl
  rw [play, program, hbody]
  rfl

theorem not_settled (hsettles : d.state.status = .failed → ¬ settles c.1) : play C request d .settle = d := by
  have hbody : alone (obliging C.answer) (settleReleasedFailure request) d = (.ok false, d) := by
    refine alone_orFalse ?_
    refine (alone_ok alone_lockStore).trans ?_
    refine (alone_ok alone_readState).trans ?_
    split
    · next hfailed =>
      refine (alone_ok (alone_loadCanonical h)).trans ?_
      dsimp only
      rw [if_neg]
      · rfl
      · rintro ⟨-, -, -, hdeadline, hother⟩
        refine hsettles hfailed.1 ⟨hdeadline, ?_⟩
        cases hactive : c.1.active with
        | none => rw [hactive] at hother; cases hother
        | some active => rfl
    · rfl
  rw [play, program, hbody]

omit h

/-! ## Both directions -/

theorem starts_or (h : s.status.starts = true) : s.status = .starting ∨ s.status = .failed := by
  cases hs : s.status <;> rw [hs] at h <;> first | exact .inl rfl | exact .inr rfl | cases h

theorem released_or (s : State) : s.status.released = true ∨ s.status.shows = true ∨ s.status.starts = true := by
  cases s.status <;> simp [Status.released, Status.shows, Status.starts]

include h

include hshape

theorem releasable_settles (hstatus : d.state.status = .failed)
    (hrun : d.state.rotation_request_id = some request) (hsettles : settles c.1) : Releasable C d :=
  .inr ⟨request, hrun, [.settle], settled_released h hshape hstatus hrun hsettles⟩

theorem releasable_received (hstarts : d.state.status.starts = true)
    (hrun : d.state.rotation_request_id = some request) (hr : d.plane.receipts.lookup request = some r)
    (hfreed : FreedBy d.state request c.1 r) : Releasable C d := by
  rcases hfreed with hnever | hover
  · exact .inr ⟨request, hrun, [.reconcile], reconciled h hshape hstarts hrun hr hnever⟩
  rcases starts_or hstarts with hstatus | hstatus
  · have hagain : Again request (startAgain d.state request c.1 r) d (play C request d (.run ⟨1, 1⟩ 1)) :=
      again_run h hshape hstatus hrun hr (h.receipt request r hrun hr)
    cases hagain with
    | moved _ _ hreleased => exact .inr ⟨request, hrun, [.run ⟨1, 1⟩ 1], hreleased⟩
    | stuck hsucceeded hno _ _ =>
      rw [if_pos ⟨hstatus, hsucceeded⟩] at hover
      exact absurd hover hno
    | failed hfailed hstate hplane =>
      rw [if_neg fun hand => hfailed hand.2] at hover
      have hquiet : Quiet (play C request d (.run ⟨1, 1⟩ 1)) c := h.congr hplane (by rw [hstate]; rfl)
      have hshape' : Shape (play C request d (.run ⟨1, 1⟩ 1)).state := hstate ▸ shape_failedStart hshape hstatus
      have hrun' : (play C request d (.run ⟨1, 1⟩ 1)).state.rotation_request_id = some request := by rw [hstate]; exact hrun
      exact .inr ⟨request, hrun, [.run ⟨1, 1⟩ 1, .settle], settled_released hquiet hshape' (by rw [hstate]; rfl) hrun' hover⟩
  · rw [if_neg fun hand => by rw [hstatus] at hand; cases hand.1] at hover
    exact releasable_settles h hshape hstatus hrun hover

theorem releasable_of_freed (hfreed : Freed d c.1) : Releasable C d := by
  rcases released_or d.state with hreleased | hshows | hstarts
  · exact .inl hreleased
  · exact releasable_shows h hshape hshows
  · obtain ⟨request, hrun, hreceipt⟩ := hfreed hstarts
    cases hr : d.plane.receipts.lookup request with
    | none =>
      rw [hr] at hreceipt
      rcases starts_or hstarts with hstatus | hstatus
      · exact releasable_unreceived hshape hstatus hrun hr
      · exact releasable_settles h hshape hstatus hrun (hreceipt.resolve_left (by rw [hstatus]; decide))
    | some r =>
      rw [hr] at hreceipt
      exact releasable_received h hshape hstarts hrun hr hreceipt

omit hshape

omit h

/-- The corner is not released, and the condition fails. -/
structure Stuck (c : ValidState) (request : RequestId) (d : Disk) : Prop where
  quiet : Quiet d c
  shape : Shape d.state
  run : d.state.rotation_request_id = some request
  starts : d.state.status.starts = true
  unfreed : ¬ Freed d c.1

theorem Stuck.congr (h : Stuck c request d) (hstate : d'.state = d.state) (hplane : d'.plane = d.plane) : Stuck c request d' := by
  refine ⟨h.quiet.congr hplane (by rw [hstate]), hstate ▸ h.shape, hstate ▸ h.run, hstate ▸ h.starts, fun hfreed => h.unfreed fun hstarts => ?_⟩
  obtain ⟨again, hrun, hreceipt⟩ := hfreed (hstate ▸ hstarts)
  rw [hstate, hplane] at hreceipt
  exact ⟨again, hstate ▸ hrun, hreceipt⟩

theorem Stuck.unreceived (h : Stuck c request d) (hr : d.plane.receipts.lookup request = none) :
    d.state.status ≠ .starting ∧ ¬ settles c.1 := by
  refine not_or.mp fun hor => h.unfreed fun _ => ⟨request, h.run, ?_⟩
  rw [hr]
  exact hor

theorem Stuck.received (h : Stuck c request d) (hr : d.plane.receipts.lookup request = some r) : ¬ FreedBy d.state request c.1 r := by
  refine fun hfreed => h.unfreed fun _ => ⟨request, h.run, ?_⟩
  rw [hr]
  exact hfreed

theorem neverStarted_failedStart {now : ℚ} {x : SwitchResult} (hstatus : s.status = .starting)
    (h : neverStarted (failedStart s now x) request r canonical = true) : neverStarted s request r canonical = true := by
  unfold neverStarted at h ⊢
  split at h
  · cases h
  · simp only [Bool.and_eq_true] at h ⊢
    exact ⟨⟨h.1.1, by simp [hstatus]⟩, h.2⟩

theorem Stuck.play_run (h : Stuck c request d) : Stuck c request (play C request d (.run cfg rounds)) := by
  rcases starts_or h.starts with hstatus | hstatus
  · cases hr : d.plane.receipts.lookup request with
    | none => exact absurd hstatus (h.unreceived hr).1
    | some r =>
      have hnot := h.received hr
      have hagain : Again request (startAgain d.state request c.1 r) d (PuyoProgram.play C request d (.run cfg rounds)) :=
        again_run h.quiet h.shape hstatus h.run hr (h.quiet.receipt request r h.run hr)
      cases hagain with
      | moved hsucceeded hi _ => exact absurd (.inr (by rw [if_pos ⟨hstatus, hsucceeded⟩]; exact hi)) hnot
      | stuck _ _ hstate hplane => exact h.congr hstate hplane
      | failed hfailed hstate hplane =>
        have hshape : Shape (failedStart d.state 0 (startAgain d.state request c.1 r)) := shape_failedStart h.shape hstatus
        refine ⟨h.quiet.congr hplane (by rw [hstate]; rfl), hstate ▸ hshape, by rw [hstate]; exact h.run, by rw [hstate]; rfl, fun hfreed => ?_⟩
        obtain ⟨again, hrun, hreceipt⟩ := hfreed (by rw [hstate]; rfl)
        rw [hstate] at hrun
        obtain rfl : request = again := some.inj (h.run.symm.trans hrun)
        rw [hstate, hplane, hr] at hreceipt
        rcases hreceipt with hnever | hover
        · exact hnot (.inl (neverStarted_failedStart hstatus hnever))
        · rw [if_neg fun hand => by cases hand.1] at hover
          exact hnot (.inr (by rw [if_neg fun hand => hfailed hand.2]; exact hover))
  · have hraise : alone (obliging C.answer) (runRotation cfg rounds request) d = (.error (.program " rotation owner needs recovery"), d) := by
      refine (alone_ok alone_readState).trans ?_
      rw [if_pos h.run, hstatus]
      rfl
    have hsame : play C request d (.run cfg rounds) = d := alone_snd_pure.trans (by rw [hraise])
    rw [hsame]
    exact h

theorem Stuck.play (h : Stuck c request d) (m : Move) : Stuck c request (play C request d m) := by
  cases m with
  | run cfg rounds => exact h.play_run
  | reconcile =>
    rw [not_reconciled h.quiet]
    · exact h
    · exact fun r hr => Bool.eq_false_iff.mpr fun hnever => h.received hr (.inl hnever)
  | settle =>
    rw [not_settled h.quiet]
    · exact h
    · intro hstatus hsettles
      cases hr : d.plane.receipts.lookup request with
      | none => exact (h.unreceived hr).2 hsettles
      | some r =>
        refine h.received hr (.inr ?_)
        rw [if_neg fun hand => by rw [hstatus] at hand; cases hand.1]
        exact hsettles
  | stop =>
    have hplay : PuyoProgram.play C request d .stop =
        if d.state.status.stoppable then { d with stop := some ⟨d.state.rotation_request_id, d.state.rotation_request_id⟩ } else d := rfl
    rw [hplay]
    split
    · exact h.congr rfl rfl
    · exact h

theorem Stuck.moves (h : Stuck c request d) (moves : List Move) : Stuck c request (moves.foldl (PuyoProgram.play C request) d) := by
  induction moves generalizing d with
  | nil => exact h
  | cons m moves ih => exact ih (h.play m)

include hshape in
include h in
theorem freed_of_releasable (hreleasable : Releasable C d) : Freed d c.1 := by
  intro hstarts
  by_contra hnot
  have hunfreed : ¬ Freed d c.1 := fun hfreed => hnot (hfreed hstarts)
  rcases hreleasable with hreleased | ⟨request, hrun, moves, hreleased⟩
  · have hbusy := Shape.busy (.inl hstarts)
    rw [hreleased] at hbusy
    cases hbusy
  · have hstuck : Stuck c request d := ⟨h, hshape, hrun, hstarts, hunfreed⟩
    have hbusy := Shape.busy (.inl (hstuck.moves (C := C) moves).starts)
    rw [hreleased] at hbusy
    cases hbusy

/-! ## In every run -/

/-- No adapter can be made. -/
def adapterless : GameSwitch.Host
  | .now, d | .glance, d => d.clock
  | .monotonic, _ => (0 : Int)
  | .newLease, d => ⟨d.leases⟩
  | .newToken, _ => (0 : ℕ)
  | .loadCanonical, d => d.canonical
  | .saveCanonical _, _ => .ok ()
  | .loadReceipt _, _ => none
  | .listReceipts, _ => []
  | .saveReceipt _ _, _ | .unlinkReceipt _, _ | .log _, _ => ()
  | .factory _, _ => .error ⟨.gameSwitch, "unknown game"⟩
  | .adapter _ _, _ => .ok true
  | .chore _, _ => .ok ()
  | .claimCancel _, _ => true
  | .awaitCancel _, _ => (true, none)

def failing : Coordinator := ⟨⟨600, 60, 120, 60, 60, 5, 60, 60, 60, 60, 60, 1, 1, 1⟩, by decide, adapterless⟩

/-- **When the corner can be released**, in every run. -/
theorem releasable_iff (env : Surroundings) (C : Coordinator) (s : Sys) (hreach : Reach env s) (c : ValidState) (hquiet : Quiet s.data c) :
    Releasable C s.data ↔ Freed s.data c.1 :=
  have hshape := (reach_sound hreach).known.kept.shape
  ⟨freed_of_releasable hquiet hshape, releasable_of_freed hquiet hshape⟩

/-- The game switch is idle. -/
def idle : ValidState := ⟨{}, by decide⟩

/-- Run 1 is asked for while the game switch takes nothing up. -/
def waiting : Disk := (alone (obliging occupied) (program (.run config 1 ⟨1⟩)) (Disk.empty { GameSwitch.Disk.empty with canonical := some idle })).2

theorem releasable_waiting : Quiet waiting idle ∧ waiting.state.status = .starting ∧ Releasable failing waiting := by
  have hperform : ∀ q d, (world dying).perform q d (obliging occupied q d).1 (obliging occupied q d).2 :=
    occupied_perform fun _ _ => rfl
  have hreach : Reach dying ⟨waiting, none⟩ :=
    ⟨_, Durable.Owning.reach_startAlone (k := .run config 1 ⟨1⟩) hperform (.inr not_mem_nil)⟩
  have hreceipt : ∀ request, waiting.plane.receipts.lookup request = none := fun _ => rfl
  have hquiet : Quiet waiting idle := by
    refine ⟨rfl, by decide, fun active h => ?_, rfl, fun request r _ hr => ?_⟩
    · cases h
    · rw [hreceipt] at hr
      cases hr
  refine ⟨hquiet, rfl, (releasable_iff dying failing ⟨waiting, none⟩ hreach idle hquiet).mpr fun _ => ⟨⟨1⟩, rfl, ?_⟩⟩
  exact .inl rfl

/-! ## A start from an idle corner that fails -/

/-- The game switch answers as it does alone; nobody dies. -/
def answering (C : Coordinator) : Surroundings := ⟨fun plane call x plane' => (x, plane') = C.answer plane call, fun _ => False, fun _ => True, False⟩

/-- Run 1 is asked for; its start fails. -/
def started : Disk := (alone (obliging failing.answer) (program (.run config 1 ⟨1⟩)) (Disk.empty .empty)).2

/-- The game switch is recovered: it is idle again. -/
def recovered : Plane :=
  (alone (GameSwitch.serve adapterless) (GameSwitch.callProgram failing.cfg (.recover none false none false)) (false, started.plane)).2.2

def jammed : Disk := { started with plane := recovered }

theorem reach_jammed : Reach (answering failing) ⟨jammed, none⟩ := by
  have hperform : ∀ q d, (world (answering failing)).perform q d (obliging failing.answer q d).1 (obliging failing.answer q d).2 :=
    obliging_perform fun _ _ => rfl
  have hstarted : Durable.Owning.Reach (world (answering failing)) program ⟨Disk.empty .empty, none⟩ ⟨started, none⟩ :=
    Durable.Owning.reach_startAlone (k := .run config 1 ⟨1⟩) hperform (.inr not_mem_nil)
  exact ⟨.empty, hstarted.tail (.other (.elsewhere recovered))⟩

theorem jammed_run : jammed.state.rotation_request_id = some ⟨1⟩ := by decide

theorem jammed_failed : jammed.state.status = .failed := by decide

/-- The game switch is at rest, and the start is over. -/
theorem jammed_quiet : ∃ c, Quiet jammed c ∧ c.1.active = none ∧
    ∀ r, jammed.plane.receipts.lookup ⟨1⟩ = some r → neverStarted jammed.state ⟨1⟩ r c.1 = false := by
  have hsome : recovered.canonical.isSome = true := by decide
  obtain ⟨c, hc⟩ := isSome_iff_exists.mp hsome
  have hstate : recovered.state = c.1 := by
    rw [GameSwitch.Disk.state, hc]
    rfl
  have hactive : recovered.state.active = none := by decide
  have hterminal : (recovered.receipts.lookup ⟨1⟩).all (fun r => r.status.isTerminal) = true := by decide
  have hnever : (recovered.receipts.lookup ⟨1⟩).all (fun r => !neverStarted jammed.state ⟨1⟩ r recovered.state) = true := by decide
  refine ⟨c, ⟨hc, ?_, fun active h => ?_, by decide, fun request r hrun hr => ?_⟩, hstate ▸ hactive, fun r hr => ?_⟩
  · rw [← hstate]
    decide
  · rw [← hstate, hactive] at h
    cases h
  · obtain rfl : ⟨1⟩ = request := some.inj (jammed_run.symm.trans hrun)
    change recovered.receipts.lookup ⟨1⟩ = some r at hr
    rw [hr] at hterminal
    exact hterminal
  · change recovered.receipts.lookup ⟨1⟩ = some r at hr
    rw [hr, hstate] at hnever
    simpa using hnever

/-- **A start from an idle corner fails, and the corner is never released**: no calls for its request end it, and every other request is
refused. -/
theorem jammed_forever : Reach (answering failing) ⟨jammed, none⟩ ∧ (∃ c, Quiet jammed c) ∧ ¬ Releasable failing jammed ∧
    alone (obliging failing.answer) (runRotation config 1 ⟨2⟩) jammed = (.error (.program "another  execution owns the state"), jammed) := by
  obtain ⟨c, hquiet, hactive, hnever⟩ := jammed_quiet
  have hstarts : jammed.state.status.starts = true := by rw [jammed_failed]; rfl
  have hshape := (reach_sound reach_jammed).known.kept.shape
  refine ⟨reach_jammed, ⟨c, hquiet⟩, fun hreleasable => ?_, ?_⟩
  · obtain ⟨request, hrun, hreceipt⟩ := freed_of_releasable hquiet hshape hreleasable hstarts
    obtain rfl : ⟨1⟩ = request := some.inj (jammed_run.symm.trans hrun)
    have hsettles : ¬ settles c.1 := fun h => by
      rw [settles, hactive] at h
      cases h.2
    split at hreceipt
    · rcases hreceipt with hstarting | h
      · rw [jammed_failed] at hstarting
        cases hstarting
      · exact hsettles h
    · next r hr =>
      rcases hreceipt with h | h
      · rw [hnever r hr] at h
        cases h
      · rw [if_neg fun hand => by rw [jammed_failed] at hand; cases hand.1] at h
        exact hsettles h
  · refine (alone_ok alone_readState).trans ?_
    rw [if_neg, jammed_failed]
    · rfl
    · rw [jammed_run]
      decide

end Docich.PuyoProgram
