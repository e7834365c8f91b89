import Docich.GameSwitch.Disk

/-!
# The store

- `load`, `save`, `initializeState`, `transition`: the canonical state (`CanonicalStateStore`);
- `receiptsQueued`, `maxGeneration`, `pruneTerminal`: the receipts (`RequestReceiptStore`);
- `acceptRequestLocked`, `claimQueuedHeadLocked`, `enqueueRequestLocked`, `requeueRequestLocked`,
  `finishRequestLocked`: the life of a request (`GameSwitchStore`);
- `transaction`: the lock around a body, given back on every way out.
-/

namespace Docich.GameSwitch

open Durable

/-! ## Helpers -/

def raise {α : Type} (kind : ExcKind) (text : String) : M α := throw ⟨kind, text⟩

/-- Raise unless the condition holds. -/
def require (c : Prop) [Decidable c] (kind : ExcKind) (text : String) : M Unit :=
  if c then pure () else raise kind text

def ofExcept {α : Type} (x : Except Exc α) : M α := Program.ofExcept x

/-- An `if` without `else`. -/
def when (c : Prop) [Decidable c] (x : M Unit) : M Unit := if c then x else pure ()

/-- Does this process hold the lock (`lock._file is not None`)? -/
def lockHeld : M Bool := Program.ask .held .ret

def requireExclusiveLock : M Unit := do
  if ← lockHeld then pure () else raise .runtime "有効なexclusive game-switch lockが必要です"

/-! ## The canonical state -/

/-- `CanonicalStateStore.load`. What is on disk has passed `validate_state` when it was written. -/
def load : M Canonical := do
  let found ← call .loadCanonical
  pure (found.elim {} Subtype.val)

/-- `CanonicalStateStore.save`: count the revision, check, replace the file. -/
def save (state : Canonical) : M Canonical := do
  let saved := { state with revision := state.revision + 1 }
  ofExcept (← call (.saveCanonical saved))
  pure saved

def initializeState : M Canonical := do
  match ← call .loadCanonical with
  | none => save {}
  | some c => pure c.1

/-- `transition` of a transaction. The updates never touch the revision. -/
def transition (expected : Phase → Bool) (phase : Phase) (updates : Canonical → Canonical := id) : M Canonical := do
  requireExclusiveLock
  let state ← load
  require (expected state.phase) .invalidTransition "そのphaseから遷移できません"
  save { updates state with phase := phase }

/-! ## Receipts -/

def saveReceipt (id : RequestId) (receipt : Receipt) : M Receipt := do
  let now ← call .now
  let saved := { receipt with updatedAt := now }
  call (.saveReceipt id saved)
  pure saved

/-- The sort key of the queue: creation time as text, generation, request id. -/
def queueKeyLe (a b : RequestId × Receipt) : Bool :=
  let ta := isoText a.2.createdAt
  let tb := isoText b.2.createdAt
  decide (ta < tb) || (decide (ta = tb) && (decide (a.2.generation < b.2.generation) ||
    (decide (a.2.generation = b.2.generation) && decide (a.1.number ≤ b.1.number))))

/-- `RequestReceiptStore.queued`: the durable queue, head first. -/
def Receipts.queued (rs : Receipts) : List (RequestId × Receipt) :=
  (rs.listing.filter fun e => e.2.status = .queued).insertionSort fun a b => queueKeyLe a b

def receiptsQueued : M (List (RequestId × Receipt)) := do
  let found ← call .listReceipts
  pure ((found.filter fun e => e.2.status = .queued).insertionSort fun a b => queueKeyLe a b)

/-- `RequestReceiptStore.max_generation`. -/
def maxGeneration : M Nat := do
  let found ← call .listReceipts
  pure ((found.map fun e => e.2.generation).foldr max 0)

/-- The receipts that a pending retirement still needs. -/
def pinned (state : Canonical) : List RequestId :=
  state.retiring.filterMap fun r => r.retirement.map Commit.requestId

/-- `max_receipts` of `prune_terminal`. -/
def maxReceipts : Nat := 1000

/-- The terminal receipts that may go, oldest write first, as many as exceed the limit. -/
def prunable (state : Canonical) (found : List (RequestId × Receipt)) : List RequestId :=
  let terminal := (found.filter fun e => e.2.status.isTerminal && !(pinned state).contains e.1).insertionSort
    fun a b => isoText a.2.updatedAt ≤ isoText b.2.updatedAt
  (terminal.map Prod.fst).take (min terminal.length (found.length - maxReceipts))

def unlinkAll : List RequestId → M Unit
  | [] => pure ()
  | id :: ids => do
    call (.unlinkReceipt id)
    unlinkAll ids

/-- `RequestReceiptStore.prune_terminal`. -/
def pruneTerminal : M Unit := do
  let found ← call .listReceipts
  if found.length ≤ maxReceipts then pure ()
  else do
    let state ← load
    unlinkAll (prunable state found)

/-! ## Requests -/

inductive AcceptanceStatus where
  | inProgress
  | queued
  | accepted
  | terminal (status : TerminalStatus)

structure RequestAcceptance where
  requestId : RequestId
  status : AcceptanceStatus
  existing : Bool
  receipt : Receipt
  claimedFromQueue : Bool := false

def RequestAcceptance.generation (a : RequestAcceptance) : Nat := a.receipt.generation

def classifyExisting (id : RequestId) (receipt : Receipt) (hash : PayloadHash) : Except Exc RequestAcceptance :=
  if receipt.payloadHash ≠ hash then
    .error ⟨.requestConflict, "同じrequest_idが異なるpayloadで使用されています"⟩
  else
    .ok { requestId := id, existing := true, receipt := receipt
          status := match receipt.status with
            | .terminal s _ => .terminal s
            | .queued => .queued
            | _ => .inProgress }

def classifyRequest (id : RequestId) (operation : Operation) (target : Option GameName) (payload : Payload) :
    M RequestAcceptance := do
  ofExcept (validateRequest operation target)
  match ← call (.loadReceipt id) with
  | none => raise .busy "別のゲーム切替が進行中です"
  | some receipt => ofExcept (classifyExisting id receipt ⟨operation, target, payload⟩)

def finishRequestLocked (id : RequestId) (status : TerminalStatus) (result : Result) : M Receipt := do
  requireExclusiveLock
  match ← call (.loadReceipt id) with
  | none => raise .stateCorrupt "完了対象のrequest receiptがありません"
  | some receipt =>
    match receipt.status with
    | .terminal status' result' =>
      if status' ≠ status ∨ result' ≠ result then
        raise .requestConflict "terminal request resultを変更できません"
      else pure receipt
    | _ => do
      let saved ← saveReceipt id { receipt with status := .terminal status result }
      pruneTerminal
      pure saved

def requeueRequestLocked (id : RequestId) : M Receipt := do
  requireExclusiveLock
  match ← call (.loadReceipt id) with
  | none => raise .stateCorrupt "再キュー対象のrequest receiptがありません"
  | some receipt =>
    if receipt.status.unfinished then saveReceipt id { receipt with status := .queued }
    else pure receipt

/-- A hard deadline that is over at the given time. -/
def hardDeadlineOver (deadline : Option Instant) (now : Instant) : Bool :=
  deadline.any (· ≤ now)

/-- The result of a queued request whose hard deadline passed. -/
def deadlineResult (id : RequestId) (operation : Operation) (fromGame toGame : Option GameName) (generation : Nat)
    (detail : String) : Result where
  requestId := some id
  operation := operation
  status := .failed
  fromGame := fromGame
  toGame := toGame
  generation := some generation
  errorCode := some "timeout"
  detail := some detail

def Canonical.activeGame (c : Canonical) : Option GameName := c.active.map fun r => r.spec.game

/-- `_claim_queued_head_locked`: only the head of the queue runs, and only from a stable phase without an owner. -/
def claimQueuedHeadLocked (state : Canonical) (canonicalRequestId : Option RequestId) (id : RequestId)
    (operation : Operation) (target : Option GameName) (existing : Receipt) (hash : PayloadHash) :
    M RequestAcceptance := do
  let queued ← receiptsQueued
  require (queued.head?.map Prod.fst = some id) .busy "先行するゲーム切替要求がキューに残っています"
  require (canonicalRequestId = none ∧ state.phase.stable) .busy "現在のゲーム切替が完了していません"
  let now ← call .now
  if hardDeadlineOver existing.hardDeadlineAt now then do
    let saved ← finishRequestLocked id .failed
      (deadlineResult id operation state.activeGame target existing.generation
        "FIFO requestのhard deadlineがclaim前に終了しました")
    let classified ← ofExcept (classifyExisting id saved hash)
    pure { classified with status := .terminal .failed }
  else do
    let _ ← save { state with
      phase := .validating
      operation := some operation
      requestId := some id
      deadlineAt := if existing.hardDeadlineAt.isSome then existing.hardDeadlineAt else state.deadlineAt }
    let claimed ← saveReceipt id { existing with status := .accepted }
    let classified ← ofExcept (classifyExisting id claimed hash)
    pure { classified with status := .accepted, claimedFromQueue := true }

def newRuntimeId (generation : Nat) : M RuntimeId := do
  let token ← call .newToken
  if h : 0 < generation then pure ⟨generation, token, h⟩
  else raise .nameValidation "generation は1以上の整数である必要があります"

/-- The commit of the request is on record, although its receipt is not finished. -/
def committed (state : Canonical) (id : RequestId) : Bool :=
  state.lastResult.any (fun r => r.requestId = some id) ||
    state.retiring.any fun r => r.retirement.any fun c => c.requestId = id

/-- A receipt that is ahead of the counter moves it. -/
def countGeneration (state : Canonical) (existing : Receipt) : M Canonical :=
  if state.nextGeneration ≤ existing.generation then
    save { state with nextGeneration := existing.generation + 1 }
  else pure state

/-- The first half of `_accept_request_locked`, for a request that has a receipt which is not terminal. -/
def acceptExistingLocked (state : Canonical) (id : RequestId) (operation : Operation) (target : Option GameName)
    (existing : Receipt) (classified : RequestAcceptance) (hash : PayloadHash) : M RequestAcceptance := do
  let canonicalRequestId := state.requestId
  let state ← countGeneration state existing
  match existing.status with
  | .allocating => do
    require (canonicalRequestId = some id → state.phase = .validating) .stateCorrupt
      "allocating receiptとcanonical phaseを安全にreconcileできません"
    require (canonicalRequestId = none → state.phase.stable) .stateCorrupt
      "allocating receiptとcanonical phaseを安全にreconcileできません"
    let _ ← save { state with phase := .validating, operation := some operation, requestId := some id }
    let saved ← saveReceipt id { existing with status := .accepted }
    ofExcept (classifyExisting id saved hash)
  | .queued => claimQueuedHeadLocked state canonicalRequestId id operation target existing hash
  | _ =>
    if canonicalRequestId.isSome then pure classified
    else if state.phase.stable && existing.status = .accepted then do
      require (¬ committed state id) .stateCorrupt "accepted receiptに対応するcanonical requestがありません"
      let requeued ← requeueRequestLocked id
      claimQueuedHeadLocked state none id operation target requeued hash
    else raise .stateCorrupt "accepted receiptに対応するcanonical requestがありません"

/-- The second half of `_accept_request_locked`: reserve a generation for a new request. -/
def acceptNewLocked (state : Canonical) (id : RequestId) (hash : PayloadHash)
    (valid : validateRequest hash.operation hash.target = .ok ()) : M RequestAcceptance := do
  require (state.requestId = none ∧ state.phase.stable) .busy "未完了canonical stateがあるため、先に復旧が必要です"
  let top ← maxGeneration
  let generation := max state.nextGeneration (top + 1)
  let runtimeId ← newRuntimeId generation
  let created ← call .now
  let receipt ← saveReceipt id
    { payloadHash := hash, runtimeId := runtimeId, status := .allocating, createdAt := created, updatedAt := created
      allowBoundaryTimeoutExtension := none, hardDeadlineAt := none, valid_target := valid
      valid_deadline := by simp }
  let _ ← save { state with
    phase := .validating
    operation := some hash.operation
    requestId := some id
    nextGeneration := generation + 1 }
  let receipt ← saveReceipt id { receipt with status := .accepted }
  pruneTerminal
  pure { requestId := id, status := .accepted, existing := false, receipt := receipt }

/-- The refusals of `_accept_request_locked` that come before any write. -/
def acceptGuards (state : Canonical) (id : RequestId) (recorded : Bool) : M Unit := do
  require (state.requestId = none ∨ state.requestId = some id) .busy
    "別requestの未完了canonical stateがあるため、先に復旧が必要です"
  require (state.phase.broken = false) .busy "canonical stateの復旧が必要です"
  require (state.requestId = some id → recorded) .stateCorrupt "canonical requestに対応するreceiptがありません"
  let found ← call .listReceipts
  require (found.all fun e => !e.2.status.unfinished || e.1 = id) .busy
    "別requestの未完了receiptがあるため、先に復旧が必要です"

def acceptRequestLocked (id : RequestId) (operation : Operation) (target : Option GameName) (payload : Payload) :
    M RequestAcceptance := do
  requireExclusiveLock
  match valid : validateRequest operation target with
  | .error e => throw e
  | .ok () => do
    let hash : PayloadHash := ⟨operation, target, payload⟩
    let state ← initializeState
    match ← call (.loadReceipt id) with
    | some existing => do
      let classified ← ofExcept (classifyExisting id existing hash)
      if existing.status.isTerminal then pure classified
      else do
        acceptGuards state id true
        acceptExistingLocked state id operation target existing classified hash
    | none => do
      acceptGuards state id false
      acceptNewLocked state id hash valid

/-- The request as `enqueue_request` stores it: capped requests carry their policy in their identity. -/
def Payload.capped (payload : Payload) (allowExtension : Bool) : Payload :=
  if allowExtension then payload else { payload with boundaryCapped := true }

/-- `_enqueue_request_locked`: a place at the end of the queue, without claiming the canonical state. -/
def enqueueRequestLocked (id : RequestId) (operation : Operation) (target : Option GameName) (payload : Payload)
    (allowExtension : Bool := true) (hardDeadlineAt : Option Instant := none) : M RequestAcceptance := do
  requireExclusiveLock
  match valid : validateRequest operation target with
  | .error e => throw e
  | .ok () =>
    if hd : hardDeadlineAt.isSome ∧ allowExtension = true then
      raise .value "hard_deadline_atにはboundary延長禁止が必要です"
    else do
      let state ← initializeState
      let existing ← call (.loadReceipt id)
      let legacyHash : PayloadHash := ⟨operation, target, payload⟩
      let hash : PayloadHash := ⟨operation, target, payload.capped allowExtension⟩
      match existing with
      | some receipt =>
        ofExcept (classifyExisting id receipt (if receipt.payloadHash = legacyHash then legacyHash else hash))
      | none => do
        require (state.phase.broken = false) .busy "canonical stateの復旧が必要です"
        let top ← maxGeneration
        let generation := max state.nextGeneration (top + 1)
        let runtimeId ← newRuntimeId generation
        let created ← call .now
        let receipt ← saveReceipt id
          { payloadHash := hash, runtimeId := runtimeId, status := .queued, createdAt := created
            updatedAt := created, allowBoundaryTimeoutExtension := some allowExtension
            hardDeadlineAt := hardDeadlineAt, valid_target := valid
            valid_deadline := fun h => by
              have : allowExtension ≠ true := fun e => hd ⟨h, e⟩
              simpa using this }
        let _ ← save { state with nextGeneration := generation + 1 }
        pruneTerminal
        pure { requestId := id, status := .queued, existing := false, receipt := receipt }

/-! ## Transactions -/

/-- `GameSwitchStore.transaction`: take the lock, run the body, give the lock back whichever way the body ends. The
body is not started when the lock is taken by somebody else. -/
def transaction {α : Type} (purpose : Purpose) (busy : M α) (body : M α) : M α :=
  Program.ask (.acquire purpose) fun
    | false => busy
    | true => do
      let result ← Program.attempt body
      let _ ← (Program.ask .release .ret : M Unit)
      ofExcept result

def raiseBusy {α : Type} : M α := raise .busy "ゲーム切替が進行中です"

def storeInitialize : M Unit := transaction .store raiseBusy do
  let _ ← initializeState
  pure ()

def storeAcceptRequest (id : RequestId) (operation : Operation) (target : Option GameName) (payload : Payload) :
    M RequestAcceptance := do
  match ← Program.attempt (transaction .store raiseBusy (acceptRequestLocked id operation target payload)) with
  | .ok acceptance => pure acceptance
  | .error e => if e.kind = .busy then classifyRequest id operation target payload else throw e

def storeEnqueueRequest (id : RequestId) (operation : Operation) (target : Option GameName) (payload : Payload)
    (allowExtension : Bool) (hardDeadlineAt : Option Instant) : M RequestAcceptance := do
  require (¬ (hardDeadlineAt.isSome ∧ allowExtension = true)) .value
    "hard_deadline_atにはboundary延長禁止が必要です"
  match ← Program.attempt (transaction .store raiseBusy
      (enqueueRequestLocked id operation target payload allowExtension hardDeadlineAt)) with
  | .ok acceptance => pure acceptance
  | .error e =>
    if e.kind = .busy then do
      match ← call (.loadReceipt id) with
      | some receipt =>
        if receipt.payloadHash = ⟨operation, target, payload⟩ then
          ofExcept (classifyExisting id receipt ⟨operation, target, payload⟩)
        else classifyRequest id operation target (payload.capped allowExtension)
      | none => classifyRequest id operation target (payload.capped allowExtension)
    else throw e

def storeFinishRequest (id : RequestId) (status : TerminalStatus) (result : Result) : M Receipt :=
  transaction .store raiseBusy (finishRequestLocked id status result)

end Docich.GameSwitch
