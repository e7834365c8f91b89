import Docich.Rotation.Inbox

/-!
# Manual requests are conserved

- `Post`: what an operation promises when it has ended, and `ensures_code`, that every operation keeps the contract;
- `requests_conserved`: what holds in every run of careful processes;
- `cancelled_executed`: a request that is cancelled after a crash between its two copies.
-/

namespace Docich.Rotation

open Durable.Locks List
open Durable.Locks.Work (throw get modify ofExcept handle fold locking)

/-! ## Operations -/

/-- What an operation promises: the identifier that `queue_manual` returns is safe. -/
def Post : Call → Except (Ledger × Failure) (Ledger × Answer) → Held Lock → Disk → Prop
  | _, .ok (_, .queued q), _, d => Safe q.request_id d
  | _, _, _, _ => True

theorem ensures_code (k : Call) (d : Disk) (hk : Consistent d) :
    Ensures careful moves (code k) (fun _ => false) d (Post k) := by
  have hwork : Does (fun _ => false) (fun _ _ => True) k.work
      (fun a _ d => ∀ q, a = .queued q → Safe q.request_id d) fun _ _ _ => True := by
    cases k with
    | tick m => exact triple_bind (triple_tick m) fun _ => triple_pure fun _ _ _ _ he => nomatch he
    | recover m => exact triple_bind (triple_recover m) fun _ => triple_pure fun _ _ _ _ he => nomatch he
    | queue_manual m game trigger_at resume_latest new_game =>
      refine triple_bind (triple_queueManual m game trigger_at resume_latest new_game) fun q =>
        triple_pure fun s d hs q' he => ?_
      cases he
      exact hs
    | cancel_scheduled_manual m game =>
      exact triple_bind (triple_cancelScheduledManual m game) fun _ => triple_pure fun _ _ _ _ he => nomatch he
  refine (hwork Work.blank d hk trivial).mono fun r h' d' hr => ?_
  match r with
  | .error _ => trivial
  | .ok (_, .queued q) => exact hr.2.2 q rfl
  | .ok (_, .outcome _) => trivial
  | .ok (_, .cancelled _ _) => trivial

/-! ## Runs -/

def noFiles : Disk := { ledger := none, inbox := none, checkpoint := none, drawn := [], executed := [], cancelled := [] }

theorem consistent_noFiles : Consistent noFiles where
  one _ _ ha := nomatch ha
  gone _ hid := nomatch hid
  random _ hid := nomatch hid
  sealed _ hk := nomatch hk
  timed _ ha := nomatch ha
  manual _ hs := nomatch hs
  drawn n hu := by
    rcases hu with ((⟨_, h, -⟩ | ⟨_, h, -⟩ | ⟨_, h, -⟩) | h | h) | ⟨_, h, -⟩ <;> cases h

/-- The systems of processes of the rotation. -/
abbrev Rotations : Type := Sys Lock Ask Ask.Answer (Ledger × Failure) Call (Ledger × Answer) Disk

/-- What a process has answered. -/
def answered (s : Rotations) (p : Nat) : Option Answer :=
  match s.procs p with
  | .running _ (.ret (_, a)) => some a
  | _ => none

theorem answered_iff {s : Rotations} {p : Nat} {a : Answer} :
    answered s p = some a ↔ ∃ k state, s.procs p = .running k (.ret (state, a)) := by
  unfold answered
  constructor
  · intro h
    split at h
    · next k state a' he =>
      cases h
      exact ⟨k, state, he⟩
    · cases h
  · rintro ⟨k, state, he⟩
    rw [he]

theorem Reaches.sound {s : Rotations} (hs : Sys.Reach careful code (Sys.start noFiles) s) :
    Sys.Sound careful moves Post s :=
  Sys.Reach.sound consistent_noFiles ensures_code hs

/-- What is safe stays safe. -/
theorem Reaches.safe {s t : Rotations} (hs : Sys.Reach careful code (Sys.start noFiles) s)
    (ht : Sys.Reach careful code s t) {id : RequestId} (hsafe : Safe id s.data) : Safe id t.data := by
  induction ht with
  | refl => exact hsafe
  | tail hu hstep ih =>
    have hsound := Reaches.sound (hs.trans hu)
    rcases hsound.moved hstep with he | ⟨h, hm⟩
    · rw [he]
      exact ih
    · exact Move.safe hm ih

/-- **Manual requests are conserved.** In every run of careful processes, killed at any time: an identifier that
`queue_manual` returned waits, was handed to the executor, or was cancelled; a cancelled one is never handed to the
executor; the inbox and the ledger hold at most one request. -/
theorem requests_conserved {s : Rotations} (hs : Sys.Reach careful code (Sys.start noFiles) s) :
    (∀ p q, answered s p = some (.queued q) → ∀ t, Sys.Reach careful code s t →
      Waiting q.request_id t.data ∨ q.request_id ∈ t.data.executed ∨ q.request_id ∈ t.data.cancelled) ∧
    (∀ id ∈ s.data.cancelled, id ∉ s.data.executed ∧ ¬ Waiting id s.data) ∧
    ∀ a b, s.data.inbox = some a → s.data.queued = some b → a = b := by
  have hsound := Reaches.sound hs
  refine ⟨fun p q he t ht => ?_, fun id hid => (hsound.known.gone id hid).symm, hsound.known.one⟩
  obtain ⟨k, state, he⟩ := answered_iff.mp he
  obtain ⟨d, hk, hothers, hsafe⟩ := hsound.ended he
  exact Reaches.safe hs ht ((stable_safe _ _).others hothers hk hsafe)

/-! ## Runs that are computed -/

/-- One corner, always due. -/
def plain : Manager where
  catalog := [{ id := "chess", adapter := "chess", game := "chess" }]
  schedule_mode := .queue
  cooldown_seconds := 0
  configured_interval := none
  rank _ _ _ := 0

/-- Surroundings in which every call succeeds and nothing else runs; nothing is cancelled. -/
def answers (now : Time) : Sys.Server Ask Ask.Answer Disk
  | .clock, d => some (now, d)
  | .rotation_enabled, d => some (.ok true, d)
  | .token, d => some ("seed", d)
  | .uuid4, d => if 0 ∈ d.drawn then none else some (.random 0, { d with drawn := 0 :: d.drawn })
  | .legacy, d => some (.ok ([], none), d)
  | .legacy_corners, d => some (.ok [], d)
  | .load, d => some (.ok d.ledger, d)
  | .save state, d => some (.ok (), { d with ledger := some state })
  | .read_queue, d => some (.ok d.inbox, d)
  | .write_queue request, d => some (.ok (), { d with inbox := some request })
  | .unlink_queue .imported, d => some (.ok (), d.unlinked .imported)
  | .observations _, d => some (.ok [], d)
  | .reconcile_terminal_failures _, d => some (.ok none, d)
  | .resources_released _, d => some (.ok none, d)
  | .paused_file _, d => some (false, d)
  | .eligible _, d => some (true, d)
  | .execute _ request, d => some (.ok "queued", { d with executed := request.request_id :: d.executed })
  | _, _ => none

theorem answers_careful (now : Time) : Sys.Serves careful (answers now) := by
  intro q d x d' h
  unfold answers at h
  split at h
  case h_4 =>
    split at h
    · cases h
    · next hn =>
      cases h
      exact ⟨⟨0, hn, rfl, rfl⟩, trivial⟩
  case h_7 | h_9 =>
    cases h
    exact ⟨⟨rfl, .inr rfl⟩, trivial⟩
  case h_8 | h_10 | h_11 =>
    cases h
    exact ⟨.inl rfl, trivial⟩
  case h_12 =>
    cases h
    exact ⟨⟨rfl, fun _ hraw => nomatch hraw⟩, trivial⟩
  case h_17 =>
    cases h
    exact ⟨⟨d.checkpoint, fun k hk => .inr ⟨k, hk, rfl⟩, rfl⟩, trivial⟩
  case h_18 => cases h
  all_goals
    cases h
    exact ⟨rfl, trivial⟩

/-- A request is queued, then the timer runs. -/
def queueAndRun : List (Sys.Action Ask Ask.Answer Call Disk) :=
  [.spawn 0 (.queue_manual plain "chess" (some 10) false false), .go 0 100 (answers 5),
   .spawn 1 (.tick plain), .go 1 100 (answers 20)]

theorem conserved_queueAndRun :
    Waiting (.random 0) (Sys.acts careful code queueAndRun (Sys.start noFiles)).data ∨
      .random 0 ∈ (Sys.acts careful code queueAndRun (Sys.start noFiles)).data.executed ∨
      .random 0 ∈ (Sys.acts careful code queueAndRun (Sys.start noFiles)).data.cancelled := by
  have hfair : ∀ a ∈ queueAndRun, a.Fair careful := by
    simp only [queueAndRun, forall_mem_cons, not_mem_nil, false_implies, implies_true, and_true]
    exact ⟨trivial, answers_careful 5, trivial, answers_careful 20⟩
  exact (requests_conserved (Sys.acts_reach hfair _)).1 0 ⟨"scheduled", "chess", .random 0, some 10⟩ (by decide +kernel) _ .refl

/-! ## A crash between the two copies -/

/-- The same surroundings, in which the inbox file can be removed. -/
def cancelling (now : Time) : Sys.Server Ask Ask.Answer Disk
  | .unlink_queue .cancelled, d => some (.ok (), d.unlinked .cancelled)
  | q, d => answers now q d

theorem cancelling_serves (now : Time) : Sys.Serves world (cancelling now) := by
  intro q d x d' h
  unfold cancelling at h
  split at h
  · cases h
    exact .inl rfl
  · exact (answers_careful now _ _ _ _ h).1

/-- The timer dies when it has copied the request to the ledger; the request is cancelled; the timer runs again. -/
def cancelAndRun : List (Sys.Action Ask Ask.Answer Call Disk) :=
  [.spawn 0 (.queue_manual plain "chess" (some 10) false false), .go 0 100 (cancelling 5),
   .spawn 1 (.tick plain), .go 1 11 (cancelling 20), .die 1,
   .spawn 2 (.cancel_scheduled_manual plain "chess"), .go 2 100 (cancelling 21),
   .spawn 3 (.tick plain), .go 3 100 (cancelling 22)]

/-- A request is handed to the executor after its cancellation was confirmed. -/
theorem cancelled_executed : ∃ s : Rotations, Sys.Reach world code (Sys.start noFiles) s ∧
    answered s 0 = some (.queued ⟨"scheduled", "chess", .random 0, some 10⟩) ∧
    answered s 2 = some (.cancelled "chess" 10) ∧ .random 0 ∈ s.data.cancelled ∧ .random 0 ∈ s.data.executed := by
  have hfair : ∀ a ∈ cancelAndRun, a.Fair world := by
    simp only [cancelAndRun, forall_mem_cons, not_mem_nil, false_implies, implies_true, and_true]
    exact ⟨trivial, cancelling_serves 5, trivial, cancelling_serves 20, trivial, trivial, cancelling_serves 21, trivial,
      cancelling_serves 22⟩
  refine ⟨_, Sys.acts_reach hfair _, ?_⟩
  decide +kernel

end Docich.Rotation
