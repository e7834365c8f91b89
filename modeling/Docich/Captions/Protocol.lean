import Docich.Captions.Filter

/-!
# The caption protocol

What holds of the filter's log in every run, whatever the clients, the socket and the queue do.

- `Allowed`: what may be queued, emitted and acknowledged after a log;
- `Core`, `Sound`: the state agrees with its log; every frame keeps it;
- `Freeing`: a clear frees the execution id, or is still pending; a frame keeps it when the acceptance of a clear can be
  sent.
-/

namespace Docich.Captions

open List

/-! ## Logs -/

def Output.block : Output → Option Block
  | .queued b => some b
  | _ => none

def Output.count : Output → Nat
  | .emitted count => count
  | _ => 0

def blocks (log : List Output) : List Block := log.filterMap Output.block

def queuedCount (log : List Output) : Nat := ((blocks log).map fun b => b.triplets.length).sum

def emittedCount (log : List Output) : Nat := (log.map Output.count).sum

@[simp] theorem blocks_append (log : List Output) (o : Output) :
    blocks (log ++ [o]) = blocks log ++ o.block.toList := by
  unfold blocks
  rw [filterMap_append]
  cases o <;> rfl

@[simp] theorem queuedCount_append (log : List Output) (o : Output) :
    queuedCount (log ++ [o]) = queuedCount log + ((o.block.map fun b => b.triplets.length).getD 0) := by
  unfold queuedCount
  rw [blocks_append, map_append, sum_append]
  cases o.block <;> simp

@[simp] theorem emittedCount_append (log : List Output) (o : Output) :
    emittedCount (log ++ [o]) = emittedCount log + o.count := by
  unfold emittedCount
  simp

/-- What may come after a log: the end of a caption right after the body of its page and execution, triplets that were
queued, and the answer to the last request once everything queued is out. -/
def Allowed (log : List Output) : Output → Prop
  | .queued (.commit id page triplets) => (∃ t, triplets = [t, t]) ∧
      ∃ triplets, (blocks log).getLast? = some (.body id page triplets)
  | .queued _ => True
  | .emitted count => emittedCount log + count ≤ queuedCount log
  | .acknowledged event page => queuedCount log ≤ emittedCount log ∧
      ∃ b, (blocks log).getLast? = some b ∧ b.answer = (event, page)
  | .refused _ => True

def Logged (log : List Output) : Prop := ∀ l o r, log = l ++ o :: r → Allowed l o

theorem Logged.append {log : List Output} {o : Output} (h : Logged log) (ho : Allowed log o) : Logged (log ++ [o]) := by
  intro l o' r heq
  rcases eq_nil_or_concat r with rfl | ⟨r, last, rfl⟩
  · obtain ⟨rfl, hlast⟩ := append_inj' heq rfl
    cases hlast
    exact ho
  · have heq' : log ++ [o] = (l ++ o' :: r) ++ [last] := by rw [heq]; simp
    obtain ⟨rfl, -⟩ := append_inj' heq' rfl
    exact h l o' r rfl

/-- Never more is emitted than was queued. -/
theorem Logged.emitted_le {log : List Output} (h : Logged log) : emittedCount log ≤ queuedCount log := by
  induction log using List.reverseRecOn with
  | nil => exact le_rfl
  | append_singleton log o ih =>
    have ih := ih fun l o' r heq => h l o' (r ++ [o]) (by rw [heq]; simp)
    have ho := h log o [] rfl
    rw [emittedCount_append, queuedCount_append]
    cases o with
    | queued b => exact le_trans ih (Nat.le_add_right _ _)
    | emitted count => exact ho
    | acknowledged event page => exact ih
    | refused code => exact ih

/-! ## States -/

/-- What the answer of an event ends. -/
def Event.finalize : Event → Finalize
  | .cleared => .clear
  | .reset => .reset
  | _ => .none

structure Core (s : Filter) : Prop where
  logged : Logged s.log
  enqueued : s.enqueuedTriplets = queuedCount s.log
  emitted : s.emittedTriplets = emittedCount s.log
  fifo : s.emittedTriplets + s.fifo.length = s.enqueuedTriplets
  detected : s.detected = false → s.fifo = []

structure Sound (s : Filter) : Prop extends Core s where
  prepared : ∀ page, s.preparedPage = some page →
    ∃ triplets, (blocks s.log).getLast? = some (.body s.executionId page triplets)
  pending : ∀ event, s.pendingEvent = some event → s.pendingTarget = s.enqueuedTriplets ∧
    s.pendingFinalize = event.finalize ∧ ∃ b, (blocks s.log).getLast? = some b ∧ b.answer = (event, s.pendingPage)

/-- Fields of the client and of the pending request are not in the core. -/
theorem Core.congr {s s' : Filter} (h : Core s) (hlog : s'.log = s.log) (hen : s'.enqueuedTriplets = s.enqueuedTriplets)
    (hem : s'.emittedTriplets = s.emittedTriplets) (hfifo : s'.fifo = s.fifo) (hdet : s'.detected = s.detected) :
    Core s' := by
  constructor
  · rw [hlog]; exact h.logged
  · rw [hen, hlog]; exact h.enqueued
  · rw [hem, hlog]; exact h.emitted
  · rw [hem, hfifo, hen]; exact h.fifo
  · rw [hdet, hfifo]; exact h.detected

section States

variable {codec : Codec} {frame : Frame} {s s' : Filter}

variable (h : Sound s)

include h

theorem closeClient_sound : Sound (closeClient s) := by
  refine ⟨h.toCore.congr rfl rfl rfl rfl rfl, h.prepared, fun event he => ?_⟩
  cases he

theorem sendErrorAndClose_sound (code : String) : Sound (sendErrorAndClose s code) := by
  unfold sendErrorAndClose
  split
  · exact h
  · apply closeClient_sound
    have hblocks : blocks (s.log ++ [.refused code]) = blocks s.log := by simp [Output.block]
    refine ⟨⟨h.logged.append trivial, ?_, ?_, h.fifo, h.detected⟩, ?_, ?_⟩
    · simpa [Output.block] using h.enqueued
    · simpa [Output.count] using h.emitted
    · rw [hblocks]; exact h.prepared
    · rw [hblocks]; exact h.pending

omit h

/-- Triplets join the end of the queue. -/
theorem enqueueTriplets_core {b : Block} (h : Core s) (hb : Allowed s.log (.queued b))
    (he : enqueueTriplets codec frame s b = some s') : Core s' ∧ (blocks s'.log).getLast? = some b ∧
      s' = { s with fifo := s'.fifo, detected := s'.detected, enqueuedTriplets := s'.enqueuedTriplets, log := s'.log } ∧
      s'.emittedTriplets < s'.enqueuedTriplets ∧ blocks s'.log = blocks s.log ++ [b] := by
  unfold enqueueTriplets at he
  dsimp only at he
  split at he
  · cases he
  · next hcount =>
    split at he
    · cases he
    · split at he
      · cases he
      · cases he
        have hfifo := h.fifo
        refine ⟨⟨h.logged.append hb, ?_, ?_, ?_, ?_⟩, ?_, rfl, ?_, ?_⟩
        · simp [Output.block, h.enqueued]
        · simpa [Output.count] using h.emitted
        · simp only [length_append]
          omega
        · intro hfalse
          cases hfalse
        · simp [Output.block]
        · dsimp only
          omega
        · simp [Output.block]

theorem startPending_sound {event : Event} {page : Option Nat} {finalize : Finalize} {b : Block} (h : Core s)
    (hlast : (blocks s.log).getLast? = some b) (hb : b.answer = (event, page))
    (hprepared : ∀ page, s.preparedPage = some page →
      ∃ triplets, (blocks s.log).getLast? = some (.body s.executionId page triplets))
    (hfinalize : finalize = event.finalize) : Sound (startPending frame s event page finalize) := by
  have hsound : Sound { s with
      pendingEvent := some event
      pendingTarget := s.enqueuedTriplets
      pendingPage := page
      pendingFinalize := finalize } := by
    refine ⟨h.congr rfl rfl rfl rfl rfl, hprepared, fun event' he => ?_⟩
    cases he
    exact ⟨rfl, hfinalize, b, hlast, hb⟩
  unfold startPending
  split
  · exact hsound
  · exact closeClient_sound hsound

include h

theorem handlePrepare_sound (id : List Char) (page : Nat) (text : List Char) :
    Sound (handlePrepare codec frame s id page text) := by
  unfold handlePrepare
  split
  · exact sendErrorAndClose_sound h _
  · split
    · exact sendErrorAndClose_sound h _
    · split
      · exact sendErrorAndClose_sound h _
      · next triplets _ =>
        split
        · exact sendErrorAndClose_sound h _
        · next s' he =>
          obtain ⟨hcore, hlast, -, -, -⟩ := enqueueTriplets_core (b := .body id page triplets) h.toCore trivial he
          refine startPending_sound ?_ hlast rfl ?_ rfl
          · exact hcore.congr rfl rfl rfl rfl rfl
          · intro page' hpage
            cases hpage
            exact ⟨triplets, hlast⟩

theorem handleCommit_sound (id : List Char) (page : Nat) :
    Sound (handleCommit codec frame s id page) := by
  unfold handleCommit
  split
  · exact sendErrorAndClose_sound h _
  · next hid =>
    rw [not_not] at hid
    split
    · exact sendErrorAndClose_sound h _
    · next hpage =>
      rw [not_not] at hpage
      split
      · exact sendErrorAndClose_sound h _
      · next s' he =>
        -- The last block is the body that was prepared.
        have hbody := h.prepared page hpage
        rw [hid] at hbody
        obtain ⟨hcore, hlast, -, -, -⟩ := enqueueTriplets_core
          (b := .commit id page [codec.endOfCaption, codec.endOfCaption]) h.toCore ⟨⟨_, rfl⟩, hbody⟩ he
        refine startPending_sound ?_ hlast rfl ?_ rfl
        · exact hcore.congr rfl rfl rfl rfl rfl
        · intro page' hpage'
          cases hpage'

theorem handleClear_sound (id : List Char) : Sound (handleClear codec frame s id) := by
  unfold handleClear
  split
  · exact sendErrorAndClose_sound h _
  · split
    · exact sendErrorAndClose_sound h _
    · next triplets _ =>
      split
      · exact sendErrorAndClose_sound h _
      · next s' he =>
        obtain ⟨hcore, hlast, -, -, -⟩ := enqueueTriplets_core (b := .clear id triplets) h.toCore trivial he
        refine startPending_sound ?_ hlast rfl ?_ rfl
        · exact hcore.congr rfl rfl rfl rfl rfl
        · intro page hpage
          cases hpage

theorem handleReset_sound : Sound (handleReset codec frame s) := by
  unfold handleReset
  split
  · exact sendErrorAndClose_sound h _
  · next triplets _ =>
    split
    · exact sendErrorAndClose_sound h _
    · next s' he =>
      obtain ⟨hcore, hlast, -, -, -⟩ := enqueueTriplets_core (b := .reset triplets) h.toCore trivial he
      refine startPending_sound ?_ hlast rfl ?_ rfl
      · exact hcore.congr rfl rfl rfl rfl rfl
      · intro page hpage
        cases hpage

theorem handleRequest_sound (json : List Char) : Sound (handleRequest codec frame s json) := by
  unfold handleRequest
  split
  · exact sendErrorAndClose_sound h _
  · exact handlePrepare_sound h _ _ _
  · exact handleCommit_sound h _ _
  · exact handleClear_sound h _
  · exact handleReset_sound h
  · exact sendErrorAndClose_sound h _

/-- An answer is due only when the whole queue is out. -/
theorem completePending_sound : Sound (completePending s) := by
  unfold completePending
  split
  · next event hclient hevent =>
    split
    · exact h
    · next hdue =>
      obtain ⟨htarget, hfinalize, b, hlast, hb⟩ := h.pending event hevent
      have hen := h.enqueued
      have hem := h.emitted
      have hempty : s.fifo = [] := by
        have hfifo := h.fifo
        apply eq_nil_of_length_eq_zero
        omega
      have hallowed : Allowed s.log (.acknowledged event s.pendingPage) := ⟨by omega, b, hlast, hb⟩
      have hblocks : blocks (s.log ++ [.acknowledged event s.pendingPage]) = blocks s.log := by simp [Output.block]
      have hcore : ∀ id detected, Core { s with
          log := s.log ++ [.acknowledged event s.pendingPage], executionId := id, detected := detected } := by
        intro id detected
        refine ⟨h.logged.append hallowed, ?_, ?_, h.fifo, fun _ => hempty⟩
        · simpa [Output.block] using hen
        · simpa [Output.count] using hem
      dsimp only
      split
      · next hends =>
        refine ⟨(hcore [] false).congr rfl rfl rfl rfl rfl, ?_, fun event' he => (nomatch he)⟩
        intro page hpage
        -- A clear or a reset has no prepared page.
        obtain ⟨triplets, hbody⟩ := h.prepared page hpage
        rw [hlast] at hbody
        cases hbody
        have hprepared : event = .prepared := (congrArg Prod.fst hb).symm
        rw [hfinalize, hprepared] at hends
        rcases hends with he | he <;> cases he
      · refine ⟨(hcore s.executionId s.detected).congr rfl rfl rfl rfl rfl, ?_, fun event' he => (nomatch he)⟩
        show ∀ page, s.preparedPage = some page → ∃ triplets,
          (blocks (s.log ++ [.acknowledged event s.pendingPage])).getLast? = some (.body s.executionId page triplets)
        rw [hblocks]
        exact h.prepared
  · exact h

theorem connected_sound (buffer : List Char) : Sound { s with client := some buffer } :=
  ⟨h.toCore.congr rfl rfl rfl rfl rfl, h.prepared, h.pending⟩

theorem receive_sound (buffer : List Char) : Sound (receive frame s buffer).1 := by
  have hread : ∀ buffer s, Sound s → Sound (receive.read buffer s).1 := by
    intro buffer s h
    unfold receive.read
    split
    · exact h
    · split
      · exact sendErrorAndClose_sound h _
      · exact h
  unfold receive
  dsimp only
  have hclient := connected_sound h ((buffer ++ frame.received).take maxMessage)
  split
  · exact hread _ _ hclient
  · split
    · exact closeClient_sound hclient
    · exact hread _ _ hclient
  · split
    · exact closeClient_sound hclient
    · exact hread _ _ hclient

variable (frame) in
theorem poll_sound : Sound (poll frame s).1 := by
  have hs := completePending_sound h
  unfold poll
  dsimp only
  split
  · exact hs
  · split
    · dsimp only
      split
      · exact closeClient_sound hs
      · exact hs
    · exact receive_sound hs _

variable (codec frame) in
theorem serviceSocket_sound : Sound (serviceSocket codec frame s) := by
  have hpoll := poll_sound frame h
  unfold serviceSocket
  split
  · next s' heq =>
    rw [heq] at hpoll
    exact hpoll
  · next s' json heq =>
    rw [heq] at hpoll
    exact handleRequest_sound hpoll json

omit h

theorem inject_frame (s : Filter) (expected : Nat) : inject s expected = { s with fifo := (inject s expected).fifo } := by
  unfold inject
  split <;> rfl

include h

/-- A frame emits what the queue gives. -/
theorem emit_sound (expected : Nat) : Sound (emit s expected) := by
  have hen := h.enqueued
  have hem := h.emitted
  have hfifo := h.fifo
  have hblocks : ∀ count, blocks (s.log ++ [.emitted count]) = blocks s.log := fun count => by simp [Output.block]
  have hqueue : (inject s expected).fifo = s.fifo.drop expected := by
    unfold inject
    split
    · rfl
    · next hdet =>
      rw [h.detected (Bool.not_eq_true _ ▸ hdet), drop_nil]
  unfold emit
  rw [inject_frame]
  refine ⟨⟨?_, ?_, ?_, ?_, ?_⟩, ?_, ?_⟩
  · exact h.logged.append (show emittedCount s.log + _ ≤ queuedCount s.log by omega)
  · simpa [Output.block] using hen
  · simp [Output.count, hem]
  · simp only [hqueue, length_drop]
    omega
  · dsimp only
    rw [hqueue]
    intro hfalse
    rw [h.detected hfalse, drop_nil]
  · dsimp only
    rw [hblocks]
    exact h.prepared
  · dsimp only
    rw [hblocks]
    exact h.pending

theorem filterFrame_sound : Sound (filterFrame codec s frame) := by
  have hs := serviceSocket_sound codec frame h
  unfold filterFrame
  split
  · exact hs
  · exact completePending_sound (emit_sound hs _)

end States

/-! ## Clears -/

/-- A request is pending only with its client, and only until its triplets are out. -/
def Waiting (s : Filter) : Prop :=
  ∀ event, s.pendingEvent = some event → s.client.isSome = true ∧ s.emittedTriplets < s.pendingTarget

/-- After a clear and before the next body, no execution is held, or the clear is pending. -/
def Freeing (s : Filter) : Prop :=
  ∀ l id triplets r, blocks s.log = l ++ .clear id triplets :: r → (∀ id page body, Block.body id page body ∉ r) →
    s.executionId = [] ∨ r = [] ∧ s.pendingEvent = some .cleared

def Parsed.id? : Parsed → Option (List Char)
  | .request (.prepare id _ _) => some id
  | .request (.commit id _) => some id
  | .request (.clear id) => some id
  | .request .reset => none
  | .unsupported id => some id

/-- The acceptance of a clear can be sent. -/
def Delivered (codec : Codec) (s : Filter) (frame : Frame) : Prop :=
  frame.sent = true ∨ ∀ json, (poll frame s).2 = some json → ∀ id, parseRequest codec.decode json ≠ .ok (.request (.clear id))

def AllDelivered (codec : Codec) : Filter → List Frame → Prop
  | _, [] => True
  | s, frame :: frames => Delivered codec s frame ∧ AllDelivered codec (filterFrame codec s frame) frames

/-- The last block, or the same cut before it. -/
theorem cut_append {bs l r : List Block} {b c : Block} (h : bs ++ [b] = l ++ c :: r) :
    (r = [] ∧ b = c ∧ bs = l) ∨ ∃ r', r = r' ++ [b] ∧ bs = l ++ c :: r' := by
  rcases eq_nil_or_concat r with rfl | ⟨r', last, rfl⟩
  · obtain ⟨hl, hb⟩ := append_inj' h rfl
    cases hb
    exact .inl ⟨rfl, rfl, hl⟩
  · have h' : bs ++ [b] = (l ++ c :: r') ++ [last] := by rw [h]; simp
    obtain ⟨hl, hb⟩ := append_inj' h' rfl
    cases hb
    exact .inr ⟨r', concat_eq_append, hl⟩

section Clears

variable {codec : Codec} {frame : Frame} {s s' : Filter}
variable {json id : List Char} {event : Event} {page : Option Nat} {finalize : Finalize}

theorem parseRequest_id {decode : List Char → Nat → Option (List Wire.Byte)} {p : Parsed}
    (h : parseRequest decode json = .ok p) : p.id? ≠ some [] := by
  have hid : ∀ {id : List Char}, validExecutionId id = true → id ≠ [] := by
    intro id hvalid
    unfold validExecutionId at hvalid
    simp only [Bool.and_eq_true, decide_eq_true_eq] at hvalid
    exact hvalid.1.1
  unfold parseRequest at h
  simp only [bind, Except.bind, pure, Except.pure, throw, throwThe, MonadExceptOf.throw] at h
  split at h
  · split at h
    · split at h
      · cases h
        intro hnone
        cases hnone
      · split at h
        · next id _ =>
          split at h
          · next hvalid =>
            have hsome : some id ≠ some [] := fun he => hid hvalid (Option.some.inj he)
            split at h
            · split at h
              · cases h
              · split at h
                · cases h
                · cases h
                  exact hsome
            · split at h
              · split at h
                · cases h
                · cases h
                  exact hsome
              · split at h
                · cases h
                  exact hsome
                · cases h
                  exact hsome
          · cases h
        · cases h
    · cases h
  · cases h

theorem Freeing.congr (h : Freeing s) (hid : s'.executionId = s.executionId) (hevent : s'.pendingEvent = s.pendingEvent)
    (hlog : blocks s'.log = blocks s.log) : Freeing s' := by
  intro l id triplets r heq hr
  rw [hid, hevent]
  exact h l id triplets r (hlog ▸ heq) hr

theorem closeClient_freeing (h : Freeing s) (hidle : s.pendingEvent = none) : Freeing (closeClient s) :=
  h.congr rfl hidle.symm rfl

theorem closeClient_waiting (s : Filter) : Waiting (closeClient s) := fun _ he => (nomatch he)

theorem sendErrorAndClose_freeing (h : Freeing s) (hidle : s.pendingEvent = none) (code : String) :
    Freeing (sendErrorAndClose s code) ∧ Waiting (sendErrorAndClose s code) := by
  unfold sendErrorAndClose
  split
  · exact ⟨h, fun event he => by rw [hidle] at he; cases he⟩
  · exact ⟨h.congr rfl hidle.symm (by simp [closeClient, Output.block]), closeClient_waiting _⟩

/-- A request that was queued waits for its triplets. -/
theorem startPending_waiting (hclient : s.client.isSome = true) (hlt : s.emittedTriplets < s.enqueuedTriplets) :
    Waiting (startPending frame s event page finalize) := by
  unfold startPending
  split
  · exact fun _ _ => ⟨hclient, hlt⟩
  · exact closeClient_waiting _

theorem startPending_freeing (h : ∀ l id triplets r, blocks s.log = l ++ .clear id triplets :: r →
      (∀ id page body, Block.body id page body ∉ r) → s.executionId = [] ∨ r = [] ∧ event = .cleared ∧ frame.sent = true) :
    Freeing (startPending frame s event page finalize) := by
  intro l id triplets r heq hr
  unfold startPending at heq ⊢
  split at heq
  · next hsent =>
    rw [if_pos hsent]
    rcases h l id triplets r heq hr with hid | ⟨hr, hevent, -⟩
    · exact .inl hid
    · exact .inr ⟨hr, congrArg some hevent⟩
  · next hsent =>
    rw [if_neg hsent]
    rcases h l id triplets r heq hr with hid | ⟨-, -, hs⟩
    · exact .inl hid
    · exact absurd hs hsent

variable (hs : Sound s)

include hs

theorem handlePrepare_freeing (h : Freeing s) (hidle : s.pendingEvent = none)
    (hclient : s.client.isSome = true) (id : List Char) (page : Nat) (text : List Char) :
    Freeing (handlePrepare codec frame s id page text) ∧ Waiting (handlePrepare codec frame s id page text) := by
  unfold handlePrepare
  split
  · exact sendErrorAndClose_freeing h hidle _
  · split
    · exact sendErrorAndClose_freeing h hidle _
    · split
      · exact sendErrorAndClose_freeing h hidle _
      · next triplets _ =>
        split
        · exact sendErrorAndClose_freeing h hidle _
        · next s' he =>
          obtain ⟨-, -, hframe, hlt, hblocks⟩ :=
            enqueueTriplets_core (b := .body id page triplets) hs.toCore trivial he
          refine ⟨startPending_freeing fun l id' triplets' r heq hr => ?_, startPending_waiting ?_ hlt⟩
          · -- A body is last.
            rw [show blocks s'.log = _ from hblocks] at heq
            rcases cut_append heq with ⟨-, hb, -⟩ | ⟨r', rfl, -⟩
            · cases hb
            · exact absurd (mem_append_right r' mem_cons_self) (hr id page triplets)
          · show s'.client.isSome = true
            rw [hframe]
            exact hclient

theorem handleCommit_freeing (h : Freeing s) (hidle : s.pendingEvent = none)
    (hclient : s.client.isSome = true) (hne : id ≠ []) (page : Nat) :
    Freeing (handleCommit codec frame s id page) ∧ Waiting (handleCommit codec frame s id page) := by
  unfold handleCommit
  split
  · exact sendErrorAndClose_freeing h hidle _
  · next hid =>
    rw [not_not] at hid
    split
    · exact sendErrorAndClose_freeing h hidle _
    · next hpage =>
      rw [not_not] at hpage
      split
      · exact sendErrorAndClose_freeing h hidle _
      · next s' he =>
        have hbody := hs.prepared page hpage
        rw [hid] at hbody
        obtain ⟨-, -, hframe, hlt, hblocks⟩ := enqueueTriplets_core
          (b := .commit id page [codec.endOfCaption, codec.endOfCaption]) hs.toCore ⟨⟨_, rfl⟩, hbody⟩ he
        refine ⟨startPending_freeing fun l id' triplets' r heq hr => ?_, startPending_waiting ?_ hlt⟩
        · rw [show blocks s'.log = _ from hblocks] at heq
          rcases cut_append heq with ⟨-, hb, -⟩ | ⟨r', rfl, hold⟩
          · cases hb
          · -- The execution is held, so no clear came after the last body.
            rcases h l id' triplets' r' hold (fun i p b hb => hr i p b (mem_append_left _ hb)) with hfree | ⟨-, he'⟩
            · exact absurd (hid.symm.trans hfree) hne
            · rw [hidle] at he'
              cases he'
        · show s'.client.isSome = true
          rw [hframe]
          exact hclient

theorem handleClear_freeing (h : Freeing s) (hidle : s.pendingEvent = none)
    (hclient : s.client.isSome = true) (hne : id ≠ []) (hsent : frame.sent = true) :
    Freeing (handleClear codec frame s id) ∧ Waiting (handleClear codec frame s id) := by
  unfold handleClear
  split
  · exact sendErrorAndClose_freeing h hidle _
  · next hid =>
    rw [not_not] at hid
    split
    · exact sendErrorAndClose_freeing h hidle _
    · next triplets _ =>
      split
      · exact sendErrorAndClose_freeing h hidle _
      · next s' he =>
        obtain ⟨-, -, hframe, hlt, hblocks⟩ := enqueueTriplets_core (b := .clear id triplets) hs.toCore trivial he
        refine ⟨startPending_freeing fun l id' triplets' r heq hr => ?_, startPending_waiting ?_ hlt⟩
        · rw [show blocks s'.log = _ from hblocks] at heq
          rcases cut_append heq with ⟨hr, -, -⟩ | ⟨r', rfl, hold⟩
          · exact .inr ⟨hr, rfl, hsent⟩
          · rcases h l id' triplets' r' hold (fun i p b hb => hr i p b (mem_append_left _ hb)) with hfree | ⟨-, he'⟩
            · exact absurd (hid.symm.trans hfree) hne
            · rw [hidle] at he'
              cases he'
        · show s'.client.isSome = true
          rw [hframe]
          exact hclient

theorem handleReset_freeing (h : Freeing s) (hidle : s.pendingEvent = none)
    (hclient : s.client.isSome = true) :
    Freeing (handleReset codec frame s) ∧ Waiting (handleReset codec frame s) := by
  unfold handleReset
  split
  · exact sendErrorAndClose_freeing h hidle _
  · next triplets _ =>
    split
    · exact sendErrorAndClose_freeing h hidle _
    · next s' he =>
      obtain ⟨-, -, hframe, hlt, -⟩ := enqueueTriplets_core (b := .reset triplets) hs.toCore trivial he
      refine ⟨startPending_freeing fun l id' triplets' r heq hr => .inl rfl, startPending_waiting ?_ hlt⟩
      show s'.client.isSome = true
      rw [hframe]
      exact hclient

theorem handleRequest_freeing (h : Freeing s) (hidle : s.pendingEvent = none)
    (hclient : s.client.isSome = true)
    (hsent : frame.sent = true ∨ ∀ id, parseRequest codec.decode json ≠ .ok (.request (.clear id))) :
    Freeing (handleRequest codec frame s json) ∧ Waiting (handleRequest codec frame s json) := by
  unfold handleRequest
  split
  · exact sendErrorAndClose_freeing h hidle _
  · exact handlePrepare_freeing hs h hidle hclient _ _ _
  · next id page hparse =>
    have hne : id ≠ [] := fun hnil => parseRequest_id hparse (congrArg some hnil)
    exact handleCommit_freeing hs h hidle hclient hne _
  · next id hparse =>
    have hne : id ≠ [] := fun hnil => parseRequest_id hparse (congrArg some hnil)
    exact handleClear_freeing hs h hidle hclient hne (hsent.resolve_right fun hno => hno id hparse)
  · exact handleReset_freeing hs h hidle hclient
  · exact sendErrorAndClose_freeing h hidle _

/-- A pending clear ends by freeing the execution. -/
theorem completePending_freeing (h : Freeing s) (hclient : ∀ e, s.pendingEvent = some e → s.client.isSome = true) :
    Freeing (completePending s) ∧ Waiting (completePending s) := by
  unfold completePending
  split
  · next event hcl hevent =>
    split
    · next hlt => exact ⟨h, fun e he => ⟨hclient e he, hlt⟩⟩
    · refine ⟨?_, closeClient_waiting _⟩
      obtain ⟨-, hfinalize, -⟩ := hs.pending event hevent
      intro l id triplets r heq hr
      dsimp only at heq ⊢
      split
      · exact .inl rfl
      · next hends =>
        rw [if_neg hends] at heq
        have heq' : blocks s.log = l ++ .clear id triplets :: r := by
          have : blocks (s.log ++ [.acknowledged event s.pendingPage]) = blocks s.log := by simp [Output.block]
          exact this ▸ heq
        rcases h l id triplets r heq' hr with hfree | ⟨-, hcleared⟩
        · exact .inl hfree
        · rw [hevent] at hcleared
          cases hcleared
          exact absurd (.inl hfinalize) hends
  · next hnone =>
    refine ⟨h, fun e he => ?_⟩
    have hsome := hclient e he
    obtain ⟨buffer, hbuffer⟩ := Option.isSome_iff_exists.mp hsome
    exact absurd he (hnone buffer e hbuffer)

omit hs

theorem receive_freeing (h : Freeing s) (hidle : s.pendingEvent = none) (buffer : List Char) :
    (Freeing (receive frame s buffer).1 ∧ Waiting (receive frame s buffer).1) ∧ ∀ json,
      (receive frame s buffer).2 = some json →
        (receive frame s buffer).1.pendingEvent = none ∧ (receive frame s buffer).1.client.isSome = true := by
  have hwait : ∀ s : Filter, s.pendingEvent = none → Waiting s := fun s hs event he => by rw [hs] at he; cases he
  have hread : ∀ buffer (s : Filter), Freeing s → s.pendingEvent = none → s.client.isSome = true →
      (Freeing (receive.read buffer s).1 ∧ Waiting (receive.read buffer s).1) ∧ ∀ json,
        (receive.read buffer s).2 = some json →
          (receive.read buffer s).1.pendingEvent = none ∧ (receive.read buffer s).1.client.isSome = true := by
    intro buffer s h hidle hclient
    unfold receive.read
    split
    · exact ⟨⟨h, hwait s hidle⟩, fun json _ => ⟨hidle, hclient⟩⟩
    · split
      · exact ⟨sendErrorAndClose_freeing h hidle _, fun json hj => (nomatch hj)⟩
      · exact ⟨⟨h, hwait s hidle⟩, fun json hj => (nomatch hj)⟩
  have hs : Freeing { s with client := some ((buffer ++ frame.received).take maxMessage) } := h.congr rfl rfl rfl
  have hclosed := closeClient_freeing hs hidle
  unfold receive
  dsimp only
  split
  · exact hread _ _ hs hidle rfl
  · split
    · exact ⟨⟨hclosed, closeClient_waiting _⟩, fun json hj => (nomatch hj)⟩
    · exact hread _ _ hs hidle rfl
  · split
    · exact ⟨⟨hclosed, closeClient_waiting _⟩, fun json hj => (nomatch hj)⟩
    · exact hread _ _ hs hidle rfl

include hs

variable (frame) in
theorem poll_freeing (h : Freeing s) (hw : Waiting s) :
    (Freeing (poll frame s).1 ∧ Waiting (poll frame s).1) ∧ ∀ json, (poll frame s).2 = some json →
      (poll frame s).1.pendingEvent = none ∧ (poll frame s).1.client.isSome = true := by
  obtain ⟨hfree, hwait⟩ := completePending_freeing hs h fun event he => (hw event he).1
  unfold poll
  dsimp only
  split
  · exact ⟨⟨hfree, hwait⟩, fun json hj => (nomatch hj)⟩
  · next hidle =>
    have hnone : (completePending s).pendingEvent = none := by
      cases hevent : (completePending s).pendingEvent with
      | none => rfl
      | some event => exact absurd ⟨(hwait event hevent).1, by rw [hevent]; rfl⟩ hidle
    split
    · refine ⟨?_, fun json hj => (nomatch hj)⟩
      dsimp only
      split
      · exact ⟨closeClient_freeing hfree hnone, closeClient_waiting _⟩
      · exact ⟨hfree, hwait⟩
    · exact receive_freeing hfree hnone _

theorem serviceSocket_freeing (h : Freeing s) (hw : Waiting s) (hsent : Delivered codec s frame) :
    Freeing (serviceSocket codec frame s) ∧ Waiting (serviceSocket codec frame s) := by
  have hsound := poll_sound frame hs
  obtain ⟨hfree, hline⟩ := poll_freeing frame hs h hw
  unfold Delivered at hsent
  unfold serviceSocket
  split
  · next s' heq =>
    rw [heq] at hfree
    exact hfree
  · next s' json heq =>
    rw [heq] at hfree hsound hline hsent
    obtain ⟨hidle, hclient⟩ := hline json rfl
    exact handleRequest_freeing hsound hfree.1 hidle hclient (hsent.imp_right fun hno => hno json rfl)

/-- A frame keeps a clear freeing, when its acceptance can be sent. -/
theorem filterFrame_freeing (h : Freeing s) (hw : Waiting s) (hsent : Delivered codec s frame) :
    Freeing (filterFrame codec s frame) ∧ Waiting (filterFrame codec s frame) := by
  obtain ⟨hfree, hwait⟩ := serviceSocket_freeing hs h hw hsent
  have hservice := serviceSocket_sound codec frame hs
  unfold filterFrame
  generalize serviceSocket codec frame s = t at *
  split
  · exact ⟨hfree, hwait⟩
  · next expected _ =>
    have hemit : Freeing (emit t expected) ∧ ∀ e, (emit t expected).pendingEvent = some e →
        (emit t expected).client.isSome = true := by
      unfold emit
      rw [inject_frame]
      exact ⟨hfree.congr rfl rfl (by simp [Output.block]), fun e he => (hwait e he).1⟩
    exact completePending_freeing (emit_sound hservice expected) hemit.1 hemit.2

end Clears

theorem new_sound : Sound .new := by
  refine ⟨⟨?_, rfl, rfl, rfl, fun _ => rfl⟩, fun page h => (nomatch h), fun event h => (nomatch h)⟩
  intro l o r h
  cases l <;> cases h

/-! ## Runs -/

section Runs

variable {codec : Codec} {frames : List Frame} {s : Filter}

theorem foldl_sound (h : Sound s) : Sound (frames.foldl (filterFrame codec) s) := by
  induction frames generalizing s with
  | nil => exact h
  | cons frame frames ih => exact ih (filterFrame_sound h)

theorem foldl_freeing (hs : Sound s) (h : Freeing s) (hw : Waiting s)
    (hsent : AllDelivered codec s frames) :
    Freeing (frames.foldl (filterFrame codec) s) ∧ Waiting (frames.foldl (filterFrame codec) s) := by
  induction frames generalizing s with
  | nil => exact ⟨h, hw⟩
  | cons frame frames ih =>
    obtain ⟨hfree, hwait⟩ := filterFrame_freeing hs h hw hsent.1
    exact ih (filterFrame_sound hs) hfree hwait hsent.2

/-- Once the triplets of a clear are out, and until the next body, no execution is held. -/
def Released (s : Filter) : Prop :=
  ∀ l id triplets r, blocks s.log = l ++ .clear id triplets :: r → (∀ id page body, Block.body id page body ∉ r) →
    ((l ++ [.clear id triplets]).map fun b => b.triplets.length).sum ≤ emittedCount s.log → s.executionId = []

theorem Freeing.released (hs : Sound s) (h : Freeing s) (hw : Waiting s) : Released s := by
  intro l id triplets r heq hr hout
  rcases h l id triplets r heq hr with hfree | ⟨rfl, hevent⟩
  · exact hfree
  · -- A pending clear is not out.
    obtain ⟨htarget, -⟩ := hs.pending .cleared hevent
    have hlt := (hw .cleared hevent).2
    have hqueued : queuedCount s.log = ((l ++ [Block.clear id triplets]).map fun b => b.triplets.length).sum := by
      unfold queuedCount
      rw [heq]
    have hen := hs.enqueued
    have hem := hs.emitted
    omega

/-- **The caption protocol.** In every run: a commit's end-of-caption pair directly follows the body of its page and
execution; what is acknowledged is the last request, once everything queued is out; and never more is emitted than was
queued. A run in which the acceptance of every clear can be sent releases the execution of a clear that is out. -/
theorem filter_protocol (codec : Codec) (frames : List Frame) :
    (∀ l id page triplets r, (run codec frames).log = l ++ .queued (.commit id page triplets) :: r →
      (∃ t, triplets = [t, t]) ∧ ∃ body, (blocks l).getLast? = some (.body id page body)) ∧
    (∀ l event page r, (run codec frames).log = l ++ .acknowledged event page :: r →
      queuedCount l ≤ emittedCount l ∧ ∃ b, (blocks l).getLast? = some b ∧ b.answer = (event, page)) ∧
    (∀ l r, (run codec frames).log = l ++ r → emittedCount l ≤ queuedCount l) ∧
    (run codec frames).emittedTriplets ≤ (run codec frames).enqueuedTriplets ∧
    (AllDelivered codec .new frames → Released (run codec frames)) := by
  have hsound : Sound (run codec frames) := foldl_sound new_sound
  refine ⟨?_, ?_, ?_, ?_, ?_⟩
  · intro l id page triplets r heq
    exact hsound.logged l _ r heq
  · intro l event page r heq
    exact hsound.logged l _ r heq
  · intro l r heq
    apply Logged.emitted_le
    intro l' o r' heq'
    exact hsound.logged l' o (r' ++ r) (by rw [heq, heq']; simp)
  · have hfifo := hsound.fifo
    omega
  · intro hsent
    have hnew : Freeing .new := by
      intro l id triplets r heq
      cases l <;> cases heq
    obtain ⟨hfree, hwait⟩ := foldl_freeing new_sound hnew (fun _ he => (nomatch he)) hsent
    exact hfree.released hsound hwait

end Runs

/-! ## A clear whose client is gone -/

def plainCodec : Codec where
  decode := fun encoded _ => some (Wire.unbase64 encoded)
  captionTriplets := fun _ => some [(252, 148, 46)]
  clearTriplets := some [(252, 148, 44)]
  endOfCaption := (252, 148, 47)
  capacity := 128

/-- A frame in which a client sends a line; `sent` says whether it still takes the acceptance. -/
def requestFrame (line : String) (sent : Bool) : Frame where
  accept := some true
  received := line.toList
  ending := .blocked
  sent := sent
  extracted := true
  injected := some 1

/-- A page is prepared and cleared, each in a frame that also emits its triplets. -/
def clearedFrames (sent : Bool) : List Frame :=
  [requestFrame "\x7b\"v\":1,\"op\":\"prepare\",\"executionId\":\"a\",\"page\":0,\"textBase64\":\"SGk=\"\x7d\n" true,
    requestFrame "\x7b\"v\":1,\"op\":\"clear\",\"executionId\":\"a\"\x7d\n" sent]

theorem clearedFrames_released : (run plainCodec (clearedFrames true)).log.length = 6 ∧
    Released (run plainCodec (clearedFrames true)) := by
  refine ⟨by decide, (filter_protocol plainCodec (clearedFrames true)).2.2.2.2 ?_⟩
  exact ⟨.inl rfl, .inl rfl, trivial⟩

/-- When the acceptance of the clear cannot be sent, the execution is still held after its triplets are out, and another
execution is refused. -/
theorem clearedFrames_held : ¬ Released (run plainCodec (clearedFrames false)) ∧
    (run plainCodec (clearedFrames false ++ [requestFrame
      "\x7b\"v\":1,\"op\":\"prepare\",\"executionId\":\"b\",\"page\":0,\"textBase64\":\"SGk=\"\x7d\n" true])).log.getLast? =
        some (.emitted 0) ∧
    Output.refused "ACTIVE_EXECUTION" ∈ (run plainCodec (clearedFrames false ++ [requestFrame
      "\x7b\"v\":1,\"op\":\"prepare\",\"executionId\":\"b\",\"page\":0,\"textBase64\":\"SGk=\"\x7d\n" true])).log := by
  refine ⟨?_, by decide, by decide⟩
  intro hreleased
  have hblocks : blocks (run plainCodec (clearedFrames false)).log =
      [.body ['a'] 0 [(252, 148, 46)]] ++ .clear ['a'] [(252, 148, 44)] :: [] := by decide
  have hheld : (run plainCodec (clearedFrames false)).executionId = ['a'] := by decide
  have hnone := hreleased _ _ _ _ hblocks (fun _ _ _ h => (nomatch h)) (by decide)
  cases hnone

end Docich.Captions
