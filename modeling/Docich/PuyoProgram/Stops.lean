import Docich.PuyoProgram.Runs

/-!
# Whom a stop ends

- `runs_kept`: **fences, announcements and stop requests, over all runs**;
- `obliging`: surroundings that answer at once, with the game switch given as a function;
- `dying_refused`: an owner that dies between the end of a run and the removal of its stop request has the next run refused.
-/

namespace Docich.PuyoProgram

open GameSwitch (RequestId SwitchResult)
open Durable.Owning (Server alone after)

/-- **Every call for the restore is fenced with the view of the run, nothing is announced twice, and where nobody breaks off or comes
late at the end of a run, a run sees no other run's stop request.** -/
theorem runs_kept (env : Surroundings) (s : Sys) (h : Reach env s) :
    Fenced s.data.log ∧ AnnouncedOnce s.data.log ∧ (env.Careful → StopsOwn s.data.log) :=
  have hk := (reach_sound h).known
  ⟨hk.kept.fenced, hk.kept.once, fun hcareful => (hk.obedient hcareful).own⟩

/-! ## Surroundings that answer at once -/

/-- Every call is answered at once, and the game switch as the function says. -/
def obliging (coordinator : Plane → SwitchCall → Except Exc SwitchResult × Plane) : Server Ask Ask.Answer Disk
  | .clock, d => (0, d)
  | .sleep _, d => ((), d)
  | .newRequestId, d => (⟨0⟩, d)
  | .readState, d => (.ok d.state, d)
  | .save state, d => (.ok (), { d with state := state, begun := beginning d state })
  | .stopRequested run, d => (d.stop.isSome, { d with log := (d.stop.map (Event.obeyed run)).toList ++ d.log })
  | .clearStopRequest, d => (true, { d with stop := none })
  | .canonical, d => (.ok (some d.plane.state), d)
  | .receipt id, d => (.ok (d.plane.receipts.lookup id), d)
  | .dispatch run call, d =>
    ((coordinator d.plane call).1,
      { d with plane := (coordinator d.plane call).2, log := .dispatched run call (coordinator d.plane call).1 :: d.log })
  | .announce run key, d => (some (.sent, .sent), { d with log := .announced run key :: d.log })
  | .loadResult, d => (true, d)
  | .lockStore, d => (true, d)
  | .loadCanonical, d => (.ok (d.plane.canonical.map Subtype.val), d)
  | .queued, d => (.ok ((GameSwitch.Receipts.queued d.plane.receipts).map Prod.fst), d)

theorem obliging_perform {env : Surroundings} {coordinator : Plane → SwitchCall → Except Exc SwitchResult × Plane}
    (h : ∀ plane call, env.coordinator plane call (coordinator plane call).1 (coordinator plane call).2) (q : Ask) (d : Disk) :
    perform env q d (obliging coordinator q d).1 (obliging coordinator q d).2 := by
  cases q with
  | clock => rfl
  | sleep seconds => rfl
  | newRequestId => rfl
  | readState => exact ⟨rfl, .inl rfl⟩
  | save state => exact .inl ⟨rfl, rfl⟩
  | stopRequested run => exact ⟨rfl, rfl⟩
  | clearStopRequest => exact .inl ⟨rfl, rfl⟩
  | canonical => exact ⟨rfl, .inr (.inl rfl)⟩
  | receipt request => exact ⟨rfl, .inl rfl⟩
  | dispatch run call => exact ⟨_, h d.plane call, rfl⟩
  | announce run key => rfl
  | loadResult => rfl
  | lockStore => rfl
  | loadCanonical => exact ⟨rfl, .inl rfl⟩
  | queued => exact ⟨rfl, .inl rfl⟩

/-- The game switch is at work for somebody else: it takes nothing up, and writes no receipt. -/
def occupied (plane : Plane) (call : SwitchCall) : Except Exc SwitchResult × Plane :=
  (.ok { requestId := none, operation := .op .start, status := .busy, toGame := call.target, errorCode := some "busy" }, plane)

def config : Config := ⟨1, 1⟩

/-! ## A run that is stopped -/

/-- Run 1 is asked for, and the game switch is busy. -/
def asked : Disk := (alone (obliging occupied) (program (.run config 9 ⟨1⟩)) (Disk.empty .empty)).2

def stopped : Disk := { asked with stop := some ⟨some ⟨1⟩, some ⟨1⟩⟩ }

variable {env : Surroundings}

variable (h : ∀ plane call, env.coordinator plane call (occupied plane call).1 (occupied plane call).2)

include h

theorem occupied_perform (q : Ask) (d : Disk) :
    (world env).perform q d (obliging occupied q d).1 (obliging occupied q d).2 := obliging_perform h q d

theorem reach_stopped
    (hstop : ∀ stopping, env.mayStop { asked with stopping := stopping }) : Reach env ⟨stopped, none⟩ := by
  refine ⟨.empty, ?_⟩
  have hasked : Durable.Owning.Reach (world env) program ⟨Disk.empty .empty, none⟩ ⟨asked, none⟩ :=
    Durable.Owning.reach_startAlone (k := .run config 9 ⟨1⟩) (occupied_perform h) (.inr List.not_mem_nil)
  have hfound : Other env asked { asked with stopping := [some ⟨1⟩] } := .found rfl
  have hwritten : Other env { asked with stopping := [some ⟨1⟩] } stopped := .written List.mem_cons_self (hstop _)
  exact (hasked.tail (.other hfound)).tail (.other hwritten)

omit h

/-- Nobody dies or comes late at the end of a run. -/
def orderly : Surroundings :=
  ⟨fun plane call x plane' => (x, plane') = occupied plane call, Settled, fun d => d.state.status.released = false, False⟩

theorem orderly_careful : orderly.Careful := ⟨fun _ h => h, fun _ h => h, fun h => h⟩

/-- It sees the stop request, and removes it. -/
def stoppedRun : Disk := (alone (obliging occupied) (program (.run config 9 ⟨1⟩)) stopped).2

theorem runs_kept_stopped : Fenced stoppedRun.log ∧ AnnouncedOnce stoppedRun.log ∧ StopsOwn stoppedRun.log ∧
    Event.obeyed ⟨1⟩ ⟨some ⟨1⟩, some ⟨1⟩⟩ ∈ stoppedRun.log := by
  have hreach : Reach orderly ⟨stopped, none⟩ := reach_stopped (fun _ _ => rfl) fun _ => rfl
  obtain ⟨plane, hstopped⟩ := hreach
  have hrun : Durable.Owning.Reach (world orderly) program ⟨stopped, none⟩ ⟨stoppedRun, none⟩ :=
    Durable.Owning.reach_startAlone (k := .run config 9 ⟨1⟩) (occupied_perform fun _ _ => rfl) (.inl rfl)
  have h := runs_kept orderly ⟨stoppedRun, none⟩ ⟨plane, hstopped.trans hrun⟩
  exact ⟨h.1, h.2.1, h.2.2 orderly_careful, List.mem_cons_self⟩

/-! ## An owner that dies -/

/-- Owners may die, and stops come late. -/
def dying : Surroundings := ⟨fun plane call x plane' => (x, plane') = occupied plane call, fun _ => True, fun _ => True, False⟩

/-- Run 1 sees the stop request, saves its end and dies. -/
def ended : Disk := (after (obliging occupied) 5 (program (.run config 9 ⟨1⟩)) stopped).2

/-- Run 2 is asked for. -/
def refused : Disk := (alone (obliging occupied) (program (.run config 9 ⟨2⟩)) ended).2

/-- **The stop of run 1 refuses run 2**, which was asked for after run 1 had ended. -/
theorem dying_refused :
    (Reach dying ⟨ended, none⟩ ∧ ended.state.rotation_request_id = some ⟨1⟩ ∧ ended.state.status = .interrupted ∧ ⟨2⟩ ∉ ended.begun ∧
      ended.stop = some ⟨some ⟨1⟩, some ⟨1⟩⟩ ∧ ended.stopping = []) ∧
    Durable.Owning.Reach (world dying) program ⟨ended, none⟩ ⟨refused, none⟩ ∧
    refused.state.rotation_request_id = some ⟨2⟩ ∧ refused.state.status = .interrupted ∧
    refused.state.end_reason = some .operator_stopped_before_start ∧ ¬ StopsOwn refused.log := by
  have hreach : Reach dying ⟨stopped, none⟩ := reach_stopped (fun _ _ => rfl) fun _ => trivial
  obtain ⟨plane, hstopped⟩ := hreach
  have hended : Durable.Owning.Reach (world dying) program ⟨stopped, none⟩ ⟨ended, none⟩ :=
    Durable.Owning.reach_startDie (k := .run config 9 ⟨1⟩) (occupied_perform fun _ _ => rfl) 5 (.inl rfl) trivial
  refine ⟨⟨⟨plane, hstopped.trans hended⟩, rfl, rfl, by decide, rfl, rfl⟩, ?_, rfl, rfl, rfl, fun h => ?_⟩
  · exact Durable.Owning.reach_startAlone (k := .run config 9 ⟨2⟩) (occupied_perform fun _ _ => rfl) (.inr (by decide))
  · rcases h ⟨2⟩ ⟨some ⟨1⟩, some ⟨1⟩⟩ List.mem_cons_self with h | h
    · exact absurd (Option.some.inj h) (by decide)
    · exact absurd (Option.some.inj h) (by decide)

end Docich.PuyoProgram
