import Docich.Rotation.Moves

/-!
# Work that moves no request

- `Careful`, `careful`: the runs in which no request is lost; the two things they leave out are what `Careful` says;
- `Frame`: assertions that only look at the places of requests, and that others keep;
- `Quiet`: work that keeps every such assertion: it asks, and writes other fields of the ledger in memory;
- `Seen`: the executor was called with a request of the ledger; what proves it (`triple_observations`,
  `triple_slotReusable`).
-/

namespace Docich.Rotation

open Durable.Locks
open Durable.Locks.Work (throw get modify ask ofExcept handle fold)

/-! ## Careful runs -/

/-- The store proves that the slot is free of the request: it is settled on another game, and nothing of the request is
in flight. -/
def Plane.free (p : Plane) (game : String) (id : RequestId) : Bool :=
  p.settled && p.clear id && p.active.map ActiveRuntime.game ≠ some game

/-- What a careful run has: a request that the inbox still holds after it was queued is not cancelled, and the slot is
never proved free of a request of the ledger before the executor was called with it. -/
def Careful : (q : Ask) → Disk → q.Answer → Prop
  | .unlink_queue .cancelled, d, _ => ∀ q, d.inbox = some q → d.queued ≠ some q
  | .plane _ game id, d, x => InLedger id d → id ∉ d.executed → ∀ p, x = some p → p.free game id = false
  | _, _, _ => True

/-- The surroundings of careful runs. -/
def careful : World Lock Ask Ask.Answer Disk where
  perform := fun q d x d' => perform q d x d' ∧ Careful q d x
  tried := world.tried

/-- What a process of a careful run does. -/
abbrev Does {α : Type} (h : Held Lock) (P : Ledger → Disk → Prop) (m : Work α) (R : α → Ledger → Disk → Prop)
    (X : Failure → Ledger → Disk → Prop) : Prop := Triple careful moves h P m R X

/-! ## Frames -/

/-- An assertion about the places of requests that the others keep. -/
structure Frame (h : Held Lock) (P : Ledger → Disk → Prop) : Prop where
  stable : ∀ s, moves.Stable h (P s)
  places : ∀ s t d, t.pending = s.pending → t.queued_manual = s.queued_manual → t.manual_pending = s.manual_pending →
    P s d → P t d

variable {α β : Type} {h : Held Lock} {P : Ledger → Disk → Prop} {id : RequestId} {d d' : Disk} {s t : Ledger}

theorem frame_any : Frame h fun _ _ => True := ⟨fun _ _ _ _ _ _ _ _ => trivial, fun _ _ _ _ _ _ _ => trivial⟩

theorem Frame.and {Q : Disk → Prop} (hP : Frame h P) (hQ : moves.Stable h Q) : Frame h fun s d => P s d ∧ Q d where
  stable s h' d d' ha hk hm hp := ⟨hP.stable s h' d d' ha hk hm hp.1, hQ h' d d' ha hk hm hp.2⟩
  places s t d h₁ h₂ h₃ hp := ⟨hP.places s t d h₁ h₂ h₃ hp.1, hp.2⟩

theorem apart_rotation {h' : Held Lock} (hr : h .rotation = true) (ha : Apart h h') : h' .rotation = false := ha _ hr

/-- What only depends on the ledger and the executed requests stays under the rotation lock. -/
theorem stable_of_ledger {Q : Disk → Prop} (hr : h .rotation = true)
    (hQ : ∀ d d', d'.ledger = d.ledger → d'.executed = d.executed → Q d → Q d') : moves.Stable h Q := by
  intro h' d d' ha _ hm hq
  obtain ⟨hl, he⟩ := Move.ledger_eq hm (apart_rotation hr ha)
  exact hQ d d' hl he hq

variable (hl : d'.ledger = d.ledger)

include hl

theorem queued_congr : d'.queued = d.queued := by
  rw [Disk.queued, hl, Disk.queued]

theorem pending_congr : d'.pending = d.pending := by
  rw [Disk.pending, hl, Disk.pending]

theorem inLedger_congr : InLedger id d' ↔ InLedger id d := by
  rw [InLedger, InLedger, queued_congr hl, pending_congr hl]

omit hl

/-- The executor was called with the request, if it is in the ledger. -/
def Seen (id : RequestId) (d : Disk) : Prop := InLedger id d → id ∈ d.executed

variable (hr : h .rotation = true)

include hr

theorem stable_seen : moves.Stable h (Seen id) :=
  stable_of_ledger hr fun d d' hl he hs hi => by
    rw [he]
    exact hs ((inLedger_congr hl).mp hi)

/-- `Fits` stays under the rotation lock. -/
theorem stable_fits : moves.Stable h (Fits s) := by
  intro h' d d' ha _ hm hs
  have hf := apart_rotation hr ha
  obtain ⟨hl, he⟩ := Move.ledger_eq hm hf
  refine ⟨fun id hi => ?_, fun q hq => ?_, fun p hp => ?_, hs.manual⟩
  · rw [he]
    exact hs.kept id ((inLedger_congr hl).mp hi)
  · rw [queued_congr hl]
    exact hs.queued q hq
  · rcases hs.pending p hp with ⟨p₀, hp₀, hid⟩ | ⟨hn, q, hq, hid⟩ | hn
    · exact .inl ⟨p₀, (pending_congr hl).trans hp₀, hid⟩
    · refine .inr (.inl ⟨Move.inbox_eq hm hf hn ?_, q, (queued_congr hl).trans hq, hid⟩)
      rw [hq]
      exact fun h => nomatch h
    · exact .inr (.inr hn)

omit hr

/-- A ledger with the same requests fits where the other does. -/
theorem Fits.places (h₁ : t.pending = s.pending) (h₂ : t.queued_manual = s.queued_manual)
    (h₃ : t.manual_pending = s.manual_pending) (hs : Fits s d) : Fits t d := by
  refine ⟨fun id hi => ?_, fun q hq => hs.queued q (h₂.symm.trans hq), fun p hp => hs.pending p (h₁.symm.trans hp),
    h₃.trans hs.manual⟩
  rw [h₁, h₂]
  exact hs.kept id hi

include hr in
theorem frame_fits : Frame h Fits :=
  ⟨fun _ => stable_fits hr, fun _ _ _ h₁ h₂ h₃ hs => hs.places h₁ h₂ h₃⟩

/-! ## Quiet work -/

/-- Work that keeps every frame. -/
def Quiet (h : Held Lock) (m : Work α) : Prop := ∀ P, Frame h P → Does h P m (fun _ => P) fun _ => P

namespace Quiet

variable {m : Work α} {f : α → Work β}

theorem pure (a : α) : Quiet h (Pure.pure a : Work α) := fun _ _ => triple_ret

theorem throw (e : Failure) : Quiet h (throw e : Work α) := fun _ _ => triple_throw fun _ _ hp => hp

theorem bind (hm : Quiet h m) (hf : ∀ a, Quiet h (f a)) : Quiet h (m >>= f) :=
  fun P hP => triple_bind (hm P hP) fun a => hf a P hP

theorem get : Quiet h (get : Work Ledger) := fun _ _ _ _ hk hp => ⟨rfl, hk, hp⟩

theorem update {g : Ledger → Ledger}
    (hg : ∀ s, (g s).pending = s.pending ∧ (g s).queued_manual = s.queued_manual ∧
      (g s).manual_pending = s.manual_pending) : Quiet h (update g) :=
  fun _ hP => triple_modify fun s d _ hp => hP.places s (g s) d (hg s).1 (hg s).2.1 (hg s).2.2 hp

theorem ofExcept (x : Except Failure α) : Quiet h (ofExcept x) :=
  fun _ _ => triple_ofExcept (fun _ _ _ _ hp => hp) fun _ _ _ _ hp => hp

theorem ite {c : Prop} [Decidable c] {m₁ m₂ : Work α} (h₁ : c → Quiet h m₁) (h₂ : ¬ c → Quiet h m₂) :
    Quiet h (if c then m₁ else m₂) := by
  split
  · next hc => exact h₁ hc
  · next hc => exact h₂ hc

theorem fold {g : α → β → Work α} (hg : ∀ a b, Quiet h (g a b)) (a : α) (bs : List β) : Quiet h (fold g a bs) :=
  fun P hP => triple_fold fun a b => hg a b P hP

/-- A request to the surroundings that changes no file. -/
theorem ask (q : Ask) (hq : ∀ d x d', perform q d x d' → d' = d) : Quiet h (Work.ask q) :=
  fun _ hP => triple_ask hP.stable fun s d x d' _ hp hx => by
    rw [hq d x d' hx.1]
    exact ⟨.stay, hp⟩

end Quiet

/-! ## Quiet calls -/

section Calls

variable (corner : String) (id : RequestId)

theorem quiet_clock : Quiet h clock := .bind (.ask Ask.clock fun _ _ _ hx => hx) fun _ => .ofExcept _

theorem quiet_rotationEnabled : Quiet h rotationEnabled :=
  .bind (.ask Ask.rotation_enabled fun _ _ _ hx => hx) fun x => .ofExcept x

theorem quiet_tryObservations : Quiet h (tryObservations corner) := .ask _ fun _ _ _ hx => hx.1

theorem quiet_observations : Quiet h (observations corner) :=
  .bind (quiet_tryObservations corner) .ofExcept

theorem quiet_resourcesReleased : Quiet h (resourcesReleased corner) :=
  .bind (.ask _ fun _ _ _ hx => hx) .ofExcept

theorem quiet_rememberCatalog (m : Manager) : Quiet h (rememberCatalog m) := .update fun _ => ⟨rfl, rfl, rfl⟩

theorem quiet_recordFailedCorner (subject : Subject) (resolution : Resolution) (kind : ErrorKind) (now : Time)
    (reason_code : Option String) : Quiet h (recordFailedCorner corner subject resolution kind now reason_code) :=
  .update fun _ => ⟨rfl, rfl, rfl⟩

theorem quiet_recordFailedCornerOnce (subject : Subject) (resolution : Resolution) (kind : ErrorKind) (now : Time)
    (reason_code : Option String) : Quiet h (recordFailedCornerOnce corner subject resolution kind now reason_code) :=
  .bind .get fun _ => .ite (fun _ => .pure ()) fun _ =>
    quiet_recordFailedCorner corner subject resolution kind now reason_code

theorem quiet_markReleasedRequest (m : Manager) (now : Time) : Quiet h (markReleasedRequest m corner id now) :=
  .update fun _ => ⟨rfl, rfl, rfl⟩

end Calls

/-! ## What observations prove -/

/-- What an adapter carries was executed, if it is in the ledger. -/
theorem triple_tryObservations (hP : Frame h P) (corner : String) :
    Does h P (tryObservations corner)
      (fun x s d => P s d ∧ ∀ raws, x = .ok raws → ∀ raw ∈ raws, ∀ id, raw.rotation_request_id = some id → Seen id d)
      fun _ => P :=
  triple_ask hP.stable fun s d _ d' _ hp hx => by
    obtain ⟨⟨rfl, hx⟩, -⟩ := hx
    refine ⟨.stay, hp, fun raws he raw hraw id hid hi => ?_⟩
    subst he
    exact hx raw hraw id hid (.inr hi)

theorem triple_observations (hP : Frame h P) (corner : String) :
    Does h P (observations corner)
      (fun raws s d => P s d ∧ ∀ raw ∈ raws, ∀ id, raw.rotation_request_id = some id → Seen id d) fun _ => P :=
  triple_bind (triple_tryObservations hP corner) fun _ =>
    triple_ofExcept (fun raws he _ _ hp => ⟨hp.1, hp.2 raws he⟩) fun _ _ _ _ hp => hp.1

theorem finished_mem {id : RequestId} {raws : List Observation} (hf : finished id raws = true) :
    ∃ raw ∈ raws, raw.rotation_request_id = some id := by
  induction raws with
  | nil => cases hf
  | cons raw raws ih =>
    by_cases hid : raw.rotation_request_id = some id
    · exact ⟨raw, List.mem_cons_self, hid⟩
    · rw [finished, if_pos hid] at hf
      obtain ⟨row, hmem, hrow⟩ := ih hf
      exact ⟨row, List.mem_cons_of_mem _ hmem, hrow⟩

theorem triple_finishedOwner (hP : Frame h P) (corner : String) (id : RequestId) :
    Does h P (finishedOwner corner id) (fun b s d => P s d ∧ (b = true → Seen id d)) fun _ => P := by
  refine triple_bind (triple_tryObservations hP corner) fun x => ?_
  cases x with
  | error e => exact triple_pure fun s d hp => ⟨hp.1, fun hb => nomatch hb⟩
  | ok raws =>
    refine triple_pure fun s d hp => ⟨hp.1, fun hb => ?_⟩
    obtain ⟨raw, hmem, hid⟩ := finished_mem hb
    exact hp.2 raws rfl raw hmem id hid

theorem quiet_finishedOwner (corner : String) (id : RequestId) : Quiet h (finishedOwner corner id) := by
  refine .bind (quiet_tryObservations corner) fun x => ?_
  cases x with
  | error e => exact .pure false
  | ok raws => exact .pure _

theorem quiet_plane (corner : String) (id : RequestId) (game : String) : Quiet h (plane corner id game) :=
  .ask _ fun _ _ _ hx => hx

theorem quiet_leftoverCornerGame (m : Manager) (corner : String) (id : RequestId) :
    Quiet h (leftoverCornerGame m corner id) := by
  unfold leftoverCornerGame
  split
  · exact .pure false
  · refine .bind (quiet_plane _ _ _) fun x => ?_
    cases x with
    | none => exact .pure false
    | some p => exact .ite (fun _ => quiet_finishedOwner corner id) fun _ => .pure false

include hr in
/-- A slot that proves to be free of a request of the ledger: the executor was called with it. -/
theorem triple_slotReusable (hP : Frame h P) (m : Manager) (corner : String)
    (id : RequestId) :
    Does h P (slotReusable m corner id) (fun b s d => P s d ∧ (b = true → Seen id d)) fun _ => P := by
  have no : ∀ Q : Ledger → Disk → Prop, (∀ s d, Q s d → P s d) →
      Does h Q (Pure.pure false : Work Bool) (fun b s d => P s d ∧ (b = true → Seen id d)) fun _ => P :=
    fun Q hQ => triple_pure fun s d hp => ⟨hQ s d hp, fun hb => nomatch hb⟩
  unfold slotReusable
  split
  · exact no _ fun _ _ hp => hp
  next c _ =>
  have hplane : Does h P (plane corner id c.game)
      (fun x s d => P s d ∧ ∀ p, x = some p → p.free c.game id = true → Seen id d) fun _ => P :=
    triple_ask hP.stable fun s d x d' _ hp hx => by
      obtain ⟨rfl, hx⟩ := hx
      refine ⟨.stay, hp, fun p he hfree hi => ?_⟩
      by_contra hn
      rw [hx hi hn p he] at hfree
      cases hfree
  refine triple_bind hplane fun x => ?_
  cases x with
  | none => exact no _ fun _ _ hp => hp.1
  | some p =>
    simp only
    split
    · exact no _ fun _ _ hp => hp.1
    next hset =>
    -- settled: either on another game, or on a run of this request that has ended
    have hheld : Does h (fun s d => P s d ∧ ∀ q, some p = some q → q.free c.game id = true → Seen id d)
        (if p.active.map ActiveRuntime.game = some c.game then finishedOwner corner id else Pure.pure true)
        (fun b s d => (P s d ∧ (b = true → p.clear id = true → Seen id d))) fun _ => P := by
      split
      · next hg =>
        refine ((triple_finishedOwner hP corner id).pre fun _ _ hp => hp.1).post (fun b s d hp => ⟨hp.1, fun hb _ => hp.2 hb⟩) fun _ _ _ hx => hx
      · next hg =>
        refine triple_pure fun s d hp => ⟨hp.1, fun _ hclear => hp.2 p rfl ?_⟩
        simp only [Bool.not_eq_true, Bool.not_eq_false'] at hset
        simp [Plane.free, hset, hclear, hg]
    refine triple_bind hheld fun b => ?_
    split
    · exact no _ fun _ _ hp => hp.1
    next hb =>
    split
    · exact no _ fun _ _ hp => hp.1
    next hclear =>
    have hseen : Frame h fun s d => P s d ∧ Seen id d := hP.and (stable_seen hr)
    have hreleased : Quiet h (tryResourcesReleased corner) := .ask _ fun _ _ _ hx => hx
    simp only [Bool.not_eq_true, Bool.not_eq_false'] at hb hclear
    refine triple_bind ((hreleased _ hseen).mono (fun s d hp => ⟨hp.1, hp.2 hb hclear⟩) (fun _ _ _ hp => hp)
      fun _ _ _ hp => hp.1) fun x => ?_
    cases x with
    | error e => exact no _ fun _ _ hp => hp.1
    | ok released => exact triple_pure fun s d hp => ⟨hp.1, fun _ => hp.2⟩

theorem quiet_slotReusable (m : Manager) (corner : String) (id : RequestId) : Quiet h (slotReusable m corner id) := by
  unfold slotReusable
  split
  · exact .pure false
  refine .bind (quiet_plane _ _ _) fun x => ?_
  cases x with
  | none => exact .pure false
  | some p =>
    refine .ite (fun _ => .pure false) fun _ => ?_
    refine .bind (.ite (fun _ => quiet_finishedOwner corner id) fun _ => .pure true) fun b => ?_
    refine .ite (fun _ => .pure false) fun _ => .ite (fun _ => .pure false) fun _ => ?_
    refine .bind (.ask _ fun _ _ _ hx => hx) fun x => ?_
    cases x with
    | error e => exact .pure false
    | ok released => exact .pure _

/-! ## Observing and selecting -/

theorem quiet_observeBusy (m : Manager) (corner : String) (raw : Observation) (found : Found) :
    Quiet h (observeBusy m corner raw found) := by
  refine .bind .get fun s => ?_
  split
  · exact .pure _
  · refine .ite (fun _ => ?_) fun _ => .pure _
    refine .bind (quiet_slotReusable m corner _) fun b => .ite (fun _ => ?_) fun _ => .pure _
    refine .bind (.ask _ fun _ _ _ hx => hx) fun outcome => .ite (fun _ => ?_) fun _ => ?_
    · exact .bind (.ask _ fun _ _ _ hx => hx) fun _ =>
        .ite (fun _ => .pure _) fun _ => .pure _
    · exact .ite (fun _ => .pure _) fun _ => .pure _

theorem quiet_importUse (history_id : String) (now : Time) (times : List Time) :
    Quiet h (importUse history_id now times) :=
  .update fun s => by
    split
    · exact ⟨rfl, rfl, rfl⟩
    · split <;> exact ⟨rfl, rfl, rfl⟩

theorem quiet_observeRow (m : Manager) (pending : Option Pending) (now : Time) (key : String × String) (found : Found)
    (raw : Observation) : Quiet h (observeRow m pending now key found raw) := by
  refine .ite (fun _ => .throw _) fun _ => ?_
  refine .bind (.ite (fun _ => .ask _ fun _ _ _ hx => hx) fun _ => .pure _) fun absent => ?_
  have hrest : ∀ u : Unit, Quiet h (do
      let found ← (if raw.status.busy && !(pending.any fun p => raw.rotation_request_id = some p.request_id) then
        observeBusy m key.1 raw found else Pure.pure found)
      let times ← Work.ofExcept (stamps raw)
      importUse key.2 now times
      Pure.pure found) := fun _ =>
    .bind (.ite (fun _ => quiet_observeBusy m key.1 raw found) fun _ => .pure _) fun _ =>
      .bind (.ofExcept _) fun _ => .bind (quiet_importUse _ _ _) fun _ => .pure _
  cases absent with
  | none => exact .bind (.pure ()) hrest
  | some name => exact .bind (quiet_recordFailedCornerOnce _ _ _ _ _ _) hrest

theorem quiet_observe (m : Manager) (now : Time) : Quiet h (observe m now) := by
  refine .bind .get fun s => .fold (fun found key => ?_) _ _
  refine .bind (.bind (.ask _ fun _ _ _ hx => hx) .ofExcept) fun _ => ?_
  refine .bind (quiet_resourcesReleased _) fun _ => .bind (quiet_observations _) fun raws => ?_
  exact .fold (fun found raw => quiet_observeRow m s.pending now key found raw) _ _

theorem quiet_eligible (m : Manager) (unretired : List String) (include_manual_only : Bool) :
    Quiet h (eligible m unretired include_manual_only) := by
  refine .fold (fun result c => .ite (fun _ => .pure _) fun _ => ?_) _ _
  refine .bind (.ask _ fun _ _ _ hx => hx) fun _ => .ite (fun _ => .pure _) fun _ => ?_
  refine .bind (.fold (fun _ other =>
    .bind (.ask (Ask.shares_state_file c.id other) fun _ _ _ hx => hx) fun _ => .pure _) _ _) fun _ => ?_
  refine .ite (fun _ => .pure _) fun _ => .ite (fun _ => .pure _) fun _ => ?_
  exact .bind (.ask _ fun _ _ _ hx => hx) fun _ => .pure _

theorem quiet_reconcileFailedStart (r : Reservation) (now : Time) : Quiet h (reconcileFailedStart r now) := by
  refine .bind (.bind (.ask _ fun _ _ _ hx => hx) .ofExcept) fun x => ?_
  split
  · refine .bind quiet_clock fun seen => .ite (fun _ => .throw _) fun _ => ?_
    refine .bind (quiet_resourcesReleased _) fun released => ?_
    split
    · exact .throw _
    · exact .pure _
  · exact .pure _

end Docich.Rotation
