import Docich.Durable.Owner
import Docich.GameSwitch.Coordinator

/-!
# A request that is asked again

- `Host`, `serve`: the answers to a call that finds the lock free and nobody else at work;
- `execute_replayed`: **a start or a switch whose receipt is terminal, asked again while no request is open, changes nothing**: it is
  answered from the receipt, or refused.
-/

namespace Docich.GameSwitch

open Durable
open Durable.Owning (Server alone alone_ok alone_error alone_attempt alone_ofExcept)

/-- The answers that no file gives: clocks, identifiers, adapters, chores. -/
abbrev Host := (q : Op) → Disk → q.Answer

/-- The answer to a request, and the files after it. -/
def answer (host : Host) : (q : Op) → Disk → q.Answer × Disk
  | .loadCanonical, d => (d.canonical, d)
  | .saveCanonical c, d =>
    match h : validateState c with
    | .ok () => (.ok (), d.writeCanonical 0 ⟨c, h⟩)
    | .error e => (.error e, d)
  | .loadReceipt id, d => (d.receipts.lookup id, d)
  | .listReceipts, d => (d.receipts.listing, d)
  | .saveReceipt id r, d => ((), d.writeReceipt 0 id r)
  | .unlinkReceipt id, d => ((), d.unlinkReceipt 0 id)
  | q, d => (host q d, d)

/-- A process that finds the lock free; the lock is among the data. -/
def serve (host : Host) : Server (Req Purpose Op) (Req.Answer Op.Answer) (Bool × Disk)
  | .acquire _, s => (true, true, s.2)
  | .release, s => ((), false, s.2)
  | .held, s => (s.1, s)
  | .call q, s => ((answer host q s.2).1, s.1, (answer host q s.2).2)

/-- No request is open: the canonical state is stable, and the queue is empty. -/
structure Resting (d : Disk) (c : ValidState) : Prop where
  canonical : d.canonical = some c
  stable : c.1.phase.stable = true
  queued : Receipts.queued d.receipts = []

/-- The operation that a request stands for, given its receipt. -/
def asOperation (operation : Operation) (target : GameName) (payload : Payload) (r : Receipt) : Operation :=
  if operation = .start ∧ r.operation = .switch ∧ r.target = some target ∧ r.payloadHash = ⟨.switch, some target, payload⟩ then .switch
  else operation

/-- The report of a request that was not accepted. -/
def refusal (id : RequestId) (operation : Operation) (target : GameName) (status : SwitchStatus) (errorCode detail : String)
    (active : Option Runtime) : SwitchResult where
  requestId := some id
  operation := .op operation
  status := status
  target := some target
  fromGame := active.map fun r => r.spec.game
  toGame := active.bind fun _ => some target
  generation := active.map Runtime.generation
  errorCode := some errorCode
  detail := some detail

/-- The answer of an operation that is asked for again. -/
def answered (id : RequestId) (operation : Operation) (target : GameName) (payload : Payload) (c : Canonical) (r : Receipt) : SwitchResult :=
  match operation, c.active with
  | .start, some active =>
    refusal id .start target .failed "already_active" s!"{active.spec.game} が起動中です。switch を要求してください" (some active)
  | operation, _ =>
    if r.payloadHash = ⟨operation, some target, payload⟩ then resultFromReceipt id r
    else refusal id operation target .requestConflict "request_conflict"
      (safeDetail ⟨.requestConflict, "同じrequest_idが異なるpayloadで使用されています"⟩) none

/-- The answer to a request whose receipt is terminal. -/
def replayed (id : RequestId) (operation : Operation) (target : GameName) (payload : Payload) (c : Canonical) (r : Receipt) : SwitchResult :=
  answered id (asOperation operation target payload r) target payload c r

variable {host : Host} {cfg : Config} {d : Disk} {c : ValidState} {held : Bool} {id : RequestId} {r : Receipt}

theorem alone_call {q : Op} : alone (serve host) (call q) (held, d) = (.ok (answer host q d).1, held, (answer host q d).2) := rfl

theorem alone_require {p : Prop} [Decidable p] {kind : ExcKind} {text : String} (hp : p) :
    alone (serve host) (require p kind text) (held, d) = (.ok (), held, d) := by
  unfold require
  rw [if_pos hp]
  rfl

variable (hc : d.canonical = some c)

include hc in
theorem alone_initializeState : alone (serve host) initializeState (held, d) = (.ok c.1, held, d) := by
  refine (alone_ok alone_call).trans ?_
  simp only [answer, hc]
  rfl

theorem alone_receiptsQueued : alone (serve host) receiptsQueued (held, d) = (.ok (Receipts.queued d.receipts), held, d) := rfl

theorem alone_requireExclusiveLock : alone (serve host) requireExclusiveLock (true, d) = (.ok (), true, d) := rfl

variable {operation : Operation} {payload : Payload} {target : GameName}

include hc in
/-- A request with a terminal receipt is recognised, or is another one. -/
theorem alone_acceptRequestLocked (hr : d.receipts.lookup id = some r) (hterminal : r.status.isTerminal = true)
    {target : Option GameName} (hvalid : validateRequest operation target = .ok ()) :
    alone (serve host) (acceptRequestLocked id operation target payload) (true, d) =
      (classifyExisting id r ⟨operation, target, payload⟩, true, d) := by
  refine (alone_ok alone_requireExclusiveLock).trans ?_
  split
  · next e he =>
    rw [hvalid] at he
    cases he
  · refine (alone_ok (alone_initializeState hc)).trans ((alone_ok alone_call).trans ?_)
    simp only [answer, hr]
    cases hclass : classifyExisting id r ⟨operation, target, payload⟩ with
    | error e => exact alone_error (by rw [ofExcept, alone_ofExcept])
    | ok a =>
      refine (alone_ok (a := a) (by rw [ofExcept, alone_ofExcept])).trans ?_
      rw [if_pos hterminal]
      rfl

def Operation.names (operation : Operation) : Prop := operation = .start ∨ operation = .switch

theorem Operation.names.valid (h : operation.names) (target : GameName) :
    validateRequest operation (some target) = .ok () := by
  rcases h with rfl | rfl <;> rfl

variable {q : ExecuteRequest} {state : Canonical} {purpose : Purpose} {body : M SwitchResult}
    {onBusy : Exc → M SwitchResult} {x : SwitchResult}

include hc in
theorem alone_acceptAndRunLocked (hr : d.receipts.lookup q.id = some r)
    (hterminal : r.status.isTerminal = true) (hnames : q.operation.names) (htarget : q.target = some target)
    : alone (serve host) (acceptAndRunLocked cfg q state) (true, d) =
      (.ok (if r.payloadHash = ⟨q.operation, some target, q.payload⟩ then resultFromReceipt q.id r
        else refusal q.id q.operation target .requestConflict "request_conflict"
          (safeDetail ⟨.requestConflict, "同じrequest_idが異なるpayloadで使用されています"⟩) none), true, d) := by
  have hrotate : q.operation ≠ .rotate := by rcases hnames with h | h <;> rw [h] <;> decide
  have hreceipt : q.receiptTarget = some target := by rw [ExecuteRequest.receiptTarget, if_neg hrotate, htarget]
  have hrotation : alone (serve host) (rotationTarget q state) (true, d) = (.ok none, true, d) := by
    rw [rotationTarget, if_neg hrotate]
    rfl
  refine (alone_ok hrotation).trans ?_
  rw [hreceipt]
  have hattempt : alone (serve host) (attempt (acceptRequestLocked q.id q.operation (some target) q.payload)) (true, d) =
      (.ok (classifyExisting q.id r ⟨q.operation, some target, q.payload⟩), true, d) := by
    rw [attempt, alone_attempt, alone_acceptRequestLocked hc hr hterminal (hnames.valid target)]
  refine (alone_ok hattempt).trans ?_
  by_cases hhash : r.payloadHash = ⟨q.operation, some target, q.payload⟩
  · rw [if_pos hhash, classifyExisting, if_neg (not_not.mpr hhash)]
    cases hstatus : r.status with
    | terminal status result => rfl
    | allocating => rw [hstatus] at hterminal; cases hterminal
    | accepted => rw [hstatus] at hterminal; cases hterminal
    | queued => rw [hstatus] at hterminal; cases hterminal
  · rw [if_neg hhash, classifyExisting, if_pos hhash]
    simp [alone, ExecuteRequest.report, refusal, htarget]

theorem followsSwitch_eq (htarget : q.target = some target) :
    (if followsSwitch q (some r) then { q with operation := .switch } else q) =
      { q with operation := asOperation q.operation target q.payload r } := by
  unfold followsSwitch asOperation
  by_cases h : q.operation = .start ∧ r.operation = .switch ∧ r.target = some target ∧ r.payloadHash = ⟨.switch, some target, q.payload⟩
  · rw [if_pos h]
    simp [h, htarget]
  · rw [if_neg h, if_neg]
    simpa [htarget, and_assoc] using h

theorem asOperation_names (h : operation.names) : (asOperation operation target payload r).names := by
  unfold asOperation
  split
  · exact .inr rfl
  · exact h

/-- Neither a switch, nor a start while no game is active, is answered without its receipt. -/
theorem answered_receipt (h : operation = .switch ∨ state.active = none) :
    answered id operation target payload state r =
      if r.payloadHash = ⟨operation, some target, payload⟩ then resultFromReceipt id r
      else refusal id operation target .requestConflict "request_conflict"
        (safeDetail ⟨.requestConflict, "同じrequest_idが異なるpayloadで使用されています"⟩) none := by
  unfold answered
  rcases h with rfl | h
  · rfl
  · rw [h]
    split
    · next hactive => cases hactive
    · rfl

include hc in
theorem alone_answerOrAcceptLocked (hr : d.receipts.lookup q.id = some r)
    (hterminal : r.status.isTerminal = true) (hnames : q.operation.names) (htarget : q.target = some target)
    (hother : ∀ active, c.1.active = some active → active.spec.game ≠ target) :
    alone (serve host) (answerOrAcceptLocked cfg q c.1 (some r)) (true, d) =
      (.ok (answered q.id q.operation target q.payload c.1 r), true, d) := by
  have haccept : alone (serve host) (acceptAndRunLocked cfg q c.1) (true, d) =
      (.ok (if r.payloadHash = ⟨q.operation, some target, q.payload⟩ then resultFromReceipt q.id r
        else refusal q.id q.operation target .requestConflict "request_conflict"
          (safeDetail ⟨.requestConflict, "同じrequest_idが異なるpayloadで使用されています"⟩) none), true, d) :=
    alone_acceptAndRunLocked hc hr hterminal hnames htarget
  have hrestart : alone (serve host) (restartTarget q c.1) (true, d) = (.ok (.ok q), true, d) := by
    rw [restartTarget, if_pos (by rcases hnames with h | h <;> rw [h] <;> decide)]
    rfl
  unfold answerOrAcceptLocked
  rcases hnames with hop | hop
  · cases hactive : c.1.active with
    | some active =>
      have hgame : some active.spec.game ≠ q.target := fun h => hother active hactive (Option.some.inj (h.trans htarget))
      rw [hop]
      dsimp only
      rw [if_neg hgame]
      simp [alone, answered, ExecuteRequest.report, refusal, htarget, hop, hactive, Runtime.generation]
    | none =>
      rw [answered_receipt (.inr hactive)]
      rw [hop] at haccept ⊢
      exact (alone_ok hrestart).trans haccept
  · rw [answered_receipt (.inl hop)]
    rw [hop] at haccept ⊢
    exact (alone_ok hrestart).trans haccept

theorem alone_executeQueueLocked (hd : Resting d c) (hr : d.receipts.lookup q.id = some r)
    (hterminal : r.status.isTerminal = true) (hnames : q.operation.names) (htarget : q.target = some target)
    (hother : ∀ active, c.1.active = some active → active.spec.game ≠ target) :
    alone (serve host) (executeQueueLocked cfg q c.1) (true, d) =
      (.ok (replayed q.id q.operation target q.payload c.1 r), true, d) := by
  refine (alone_ok alone_call).trans ?_
  simp only [answer, hr]
  rw [followsSwitch_eq htarget]
  refine (alone_ok alone_receiptsQueued).trans ?_
  rw [if_neg (by simp), if_neg (by simp [hd.queued])]
  have hqueued : r.status ≠ .queued := fun h => by
    rw [h] at hterminal
    cases hterminal
  rw [if_neg fun h => hqueued h.1]
  exact alone_answerOrAcceptLocked (q := { q with operation := asOperation q.operation target q.payload r }) hd.canonical hr hterminal
    (asOperation_names hnames) htarget hother

theorem alone_executeLocked (hd : Resting d c) (hr : d.receipts.lookup q.id = some r)
    (hterminal : r.status.isTerminal = true) (hnames : q.operation.names) (htarget : q.target = some target)
    (hother : ∀ active, c.1.active = some active → active.spec.game ≠ target) :
    alone (serve host) (executeLocked cfg q) (true, d) = (.ok (replayed q.id q.operation target q.payload c.1 r), true, d) := by
  have hrestart : alone (serve host) (resolveRestart q c.1) (true, d) = (.ok q, true, d) := by
    rw [resolveRestart, if_neg fun h => by rcases hnames with h' | h' <;> rw [h'] at h <;> cases h.1]
    rfl
  have hphase := hd.stable
  refine (alone_ok (alone_initializeState hd.canonical)).trans ((alone_ok hrestart).trans ?_)
  rw [if_neg, if_neg]
  · exact alone_executeQueueLocked hd hr hterminal hnames htarget hother
  · intro h
    rw [h] at hphase
    cases hphase
  · intro h
    cases hp : c.1.phase <;> rw [hp] at hphase h <;> cases hphase <;> cases h

/-- A body that answers under the lock. -/
theorem alone_enterOnce (hbody : alone (serve host) body (true, d) = (.ok x, true, d)) :
    alone (serve host) (enterOnce purpose body onBusy) (false, d) = (.ok x, false, d) := by
  have htransaction : alone (serve host) (transaction purpose raiseBusy body) (false, d) = (.ok x, false, d) := by
    have hattempt : alone (serve host) (Program.attempt body) (true, d) = (.ok (.ok x), true, d) := by rw [alone_attempt, hbody]
    exact (alone_ok hattempt).trans rfl
  have hattempt : alone (serve host) (attempt (transaction purpose raiseBusy body)) (false, d) = (.ok (.ok x), false, d) := by
    rw [attempt, alone_attempt, htransaction]
  exact (alone_ok hattempt).trans rfl

theorem alone_retryBusy {until_ : Ticks}
    {polls : Nat} (hbody : alone (serve host) body (true, d) = (.ok x, true, d)) :
    alone (serve host) (retryBusy purpose body onBusy until_ polls) (false, d) = (.ok x, false, d) := by
  cases polls <;> exact alone_enterOnce hbody

/-- **A start or a switch that is asked again.** -/
theorem execute_replayed (hd : Resting d c) (hr : d.receipts.lookup id = some r) (hterminal : r.status.isTerminal = true)
    (hcfg : 0 < cfg.defaultTimeout) (hnames : operation.names)
    (hother : ∀ active, c.1.active = some active → active.spec.game ≠ target) :
    alone (serve host) (execute cfg operation (some target) [] id none payload true) (false, d) =
      (.ok (replayed id operation target payload c.1 r), false, d) := by
  have hrestart : operation ≠ .restart := by rcases hnames with rfl | rfl <;> decide
  have hrotate : operation ≠ .rotate := by rcases hnames with rfl | rfl <;> decide
  have hcheck : alone (serve host) (checkRequest operation (some target)) (false, d) = (.ok (), false, d) := by
    rw [checkRequest, if_neg hrestart, ofExcept, alone_ofExcept, hnames.valid target]
  have hpayload : alone (serve host) (cappedPayload id operation (some target) payload true) (false, d) = (.ok payload, false, d) := rfl
  refine (alone_ok hcheck).trans ((alone_ok hpayload).trans ?_)
  rw [if_neg hrotate]
  refine (alone_ok (alone_require hcfg)).trans ((alone_ok alone_call).trans ((alone_ok alone_call).trans ((alone_ok alone_call).trans
    ((alone_ok alone_call).trans ?_))))
  exact alone_retryBusy (alone_executeLocked hd hr hterminal hnames rfl hother)

end Docich.GameSwitch
