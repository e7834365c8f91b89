import Docich.GameSwitch.Recovery

/-!
# Requests and calls

- `executeLocked`: what a request meets under the lock: a broken state, a drain, the queue, an answer that needs no
  transaction, its own receipt, or its execution;
- `handleDrainingLocked`: a request that arrives while another one waits for a boundary;
- `execute`, `recover`, `resumeQueued`, `maintainFifo`: the calls of the coordinator;
- `callProgram`: every call a process can be started with.
-/

namespace Docich.GameSwitch

open Durable

/-- A request, as `_execute_locked` gets it. -/
structure ExecuteRequest where
  id : RequestId
  operation : Operation
  target : Option GameName
  payload : Payload
  deadline : Ticks
  deadlineAt : Instant
  games : List GameName
  allowExtension : Bool

namespace ExecuteRequest

def report (q : ExecuteRequest) (status : SwitchStatus) (errorCode detail : Option String)
    (fromGame toGame : Option GameName := none) (generation : Option Nat := none) : SwitchResult where
  requestId := some q.id
  operation := .op q.operation
  status := status
  target := q.target
  fromGame := fromGame
  toGame := toGame
  generation := generation
  errorCode := errorCode
  detail := detail

/-- The hard deadline of a queued request: capped requests carry their wall-clock deadline. -/
def hardDeadline (q : ExecuteRequest) : Option Instant := if q.allowExtension then none else some q.deadlineAt

/-- The target of the receipt: a rotation has none. -/
def receiptTarget (q : ExecuteRequest) : Option GameName := if q.operation = .rotate then none else q.target

end ExecuteRequest

def nextRotationGame (games : List GameName) (current : Option GameName) : Except Exc GameName :=
  match games with
  | [] => .error ⟨.value, "games リストが空です"⟩
  | first :: _ =>
    match current with
    | some current =>
      if current ∈ games then .ok (games.getD ((games.idxOf current + 1) % games.length) first) else .ok first
    | none => .ok first

/-! ## Short answers -/

/-- Put the request at the end of the queue, or find it there. -/
def enqueueAnswer (q : ExecuteRequest) (state : Canonical) : M SwitchResult := do
  let acceptance ← enqueueRequestLocked q.id q.operation q.target q.payload q.allowExtension q.hardDeadline
  pure (queuedResult q.id acceptance.receipt state.activeGame)

/-- Finish a queued request that has nothing to do. -/
def finishIdle (q : ExecuteRequest) (existing : Receipt) (game : Option GameName) (detail : String) :
    M SwitchResult := do
  let saved ← finishRequestLocked q.id .succeeded
    { requestId := some q.id, operation := q.operation, status := .succeeded, fromGame := game, toGame := game
      generation := some existing.generation, detail := some detail }
  pure (resultFromReceipt q.id saved)

/-- Does the payload fence the source runtime? -/
def Payload.fenced (p : Payload) : Bool := p.expectedSource.isSome

/-- The exact source check of a fenced request. -/
def fenceHolds (operation : Operation) (active : Option Runtime) : SourceFence → Bool
  | .malformed => false
  | .runtime game id generation lease =>
    (operation = .stop || operation = .switch) && decide (0 < generation) &&
      active.any fun r => r.spec.game = game && r.spec.id = id && r.generation = generation && r.spec.lease = lease

/-- End a request that was just claimed: back to the stable phase it came from. -/
def failClaimedLocked (q : ExecuteRequest) (active : Option Runtime) (generation : Nat) (errorCode detail : String) :
    M SwitchResult := do
  let result : Result :=
    { requestId := some q.id, operation := q.operation, status := .failed
      fromGame := active.map fun r => r.spec.game, toGame := q.target, generation := some generation
      errorCode := some errorCode, detail := some detail }
  let _ ← transition (only .validating) (if active.isSome then .ready else .idle) fun s =>
    { s.released with lastResult := some result }
  let saved ← finishRequestLocked q.id .failed result
  pure (resultFromReceipt q.id saved)

/-- The result on record for a request whose receipt was left behind by a crash after the commit. -/
def recordedResult (state : Canonical) (id : RequestId) (receipt : Option Receipt) : Except Exc (Option Result) :=
  match state.retiring.find? fun r => r.retirement.any fun c => c.requestId = id with
  | some runtime =>
    match runtime.retirement with
    | some proof => (committedRetirementResult runtime proof receipt).map some
    | none => .ok none
  | none =>
    match state.lastResult with
    | none => .ok none
    | some r =>
      if r.requestId ≠ some id then .ok none
      else if r.retires then .error ⟨.stateCorrupt, "正常退役のcommit markerがありません"⟩
      else .ok (some r)

def reconcileStaleReceipt (cfg : Config) (q : ExecuteRequest) : M (Option SwitchResult) := do
  let state ← load
  let receipt ← call (.loadReceipt q.id)
  match ← ofExcept (recordedResult state q.id receipt) with
  | none => pure none
  | some result =>
    match receipt with
    | none => pure none
    | some receipt =>
      if receipt.status.isTerminal then pure none
      else do
        require (receipt.payloadHash = ⟨q.operation, q.receiptTarget, q.payload⟩) .requestConflict
          "同じrequest_idが異なるpayloadで使用されています"
        let saved ← finishRequestLocked q.id result.status result
        let (pending, warnings) ← finalizeLocked cfg q.deadline []
        pure (some (resultFromReceipt q.id saved warnings pending))

/-! ## Under the lock -/

/-- After acceptance: replay, fence, or run. -/
def runAcceptedLocked (cfg : Config) (q : ExecuteRequest) (active : Option Runtime) (target : Option GameName)
    (a : RequestAcceptance) : M SwitchResult := do
  let replay := a.existing && !a.claimedFromQueue
  let current ← load
  if replay && current.phase ≠ .validating then recoverLocked cfg q.deadline
  else if q.payload.expectedSource.any fun fence => !fenceHolds q.operation active fence then
    failClaimedLocked q active a.generation "source_fence_lost" "expected source runtime identity no longer matches"
  else if replay then recoverLocked cfg q.deadline
  else runOperationLocked cfg a q.operation target q.deadline q.deadlineAt q.allowExtension

/-- After acceptance: the hard deadline of a queued request bounds everything that follows. -/
def startAcceptedLocked (cfg : Config) (q : ExecuteRequest) (active : Option Runtime) (target : Option GameName)
    (a : RequestAcceptance) : M SwitchResult :=
  match a.status with
  | .terminal _ => pure (resultFromReceipt a.requestId a.receipt)
  | _ =>
    match a.receipt.hardDeadlineAt, a.existing && !a.claimedFromQueue with
    | some hard, false => do
      let now ← call .now
      if hard ≤ now then do
        let current ← load
        failClaimedLocked q current.active a.generation "timeout"
          "FIFO requestのhard deadlineがclaim直後に終了しました"
      else do
        let deadline := min q.deadline ((← monotonic) + ((hard - now : Nat) : Int))
        runAcceptedLocked cfg { q with deadline := deadline, deadlineAt := hard } active target a
    | _, _ => runAcceptedLocked cfg q active target a

def rotationTarget (q : ExecuteRequest) (state : Canonical) : M (Option GameName) :=
  if q.operation = .rotate then some <$> ofExcept (nextRotationGame q.games state.activeGame) else pure none

def acceptAndRunLocked (cfg : Config) (q : ExecuteRequest) (state : Canonical) : M SwitchResult := do
  let rotateTarget ← rotationTarget q state
  match ← attempt (acceptRequestLocked q.id q.operation q.receiptTarget q.payload) with
  | .ok a => startAcceptedLocked cfg q state.active (rotateTarget.or q.target) a
  | .error e =>
    match e.kind with
    | .requestConflict => pure (q.report .requestConflict (some "request_conflict") (some (safeDetail e)))
    | .stateCorrupt => do
      match ← reconcileStaleReceipt cfg q with
      | some r => pure r
      | none => throw e
    | _ => throw e

/-- The target of a restart: the recorded one, else the active game; or the report that there is none. -/
def restartTarget (q : ExecuteRequest) (state : Canonical) : M (Stage ExecuteRequest) := do
  if q.operation ≠ .restart then pure (.ok q)
  else
    match ← call (.loadReceipt q.id) with
    | some receipt =>
      match receipt.target with
      | some target => pure (.ok { q with target := some target })
      | none => raise .stateCorrupt "restart receiptにtargetが記録されていません"
    | none =>
      match state.active with
      | some active => pure (.ok { q with target := some active.spec.game })
      | none =>
        pure (.error { q.report .failed (some "no_active_game") (some "実行中のゲームがありません") with target := none })

/-- The answers that need no transaction: a start while a game runs, a stop while none runs. -/
def answerOrAcceptLocked (cfg : Config) (q : ExecuteRequest) (state : Canonical) (existing : Option Receipt) :
    M SwitchResult :=
  match q.operation, state.active with
  | .start, some active =>
    if some active.spec.game = q.target then
      pure (q.report .succeeded none (some "既に起動中です") q.target q.target (some active.generation))
    else
      pure (q.report .failed (some "already_active") (some s!"{active.spec.game} が起動中です。switch を要求してください")
        (some active.spec.game) q.target (some active.generation))
  | .stop, none =>
    if q.payload.fenced then acceptAndRunLocked cfg q state
    else
      match existing with
      | some receipt =>
        if receipt.status = .queued then finishIdle q receipt none "実行中のゲームはありません"
        else pure { q.report .succeeded none (some "実行中のゲームはありません") with target := none }
      | none => pure { q.report .succeeded none (some "実行中のゲームはありません") with target := none }
  | _, _ => do
    match ← restartTarget q state with
    | .error r => pure r
    | .ok q => acceptAndRunLocked cfg q state

/-- The recorded switch that a start under the same target and payload follows. -/
def followsSwitch (q : ExecuteRequest) (existing : Option Receipt) : Bool :=
  q.operation = .start && existing.any fun r => r.operation = .switch && r.target = q.target &&
    r.payloadHash = ⟨.switch, q.target, q.payload⟩

/-- `_execute_locked` outside `draining` and the broken phases: the rules of the queue first. -/
def executeQueueLocked (cfg : Config) (q : ExecuteRequest) (state : Canonical) : M SwitchResult := do
  let existing ← call (.loadReceipt q.id)
  let q := if followsSwitch q existing then { q with operation := .switch } else q
  let queued ← receiptsQueued
  if ¬ state.phase.stable ∧ existing = none then enqueueAnswer q state
  else if queued ≠ [] ∧ queued.head?.map Prod.fst ≠ some q.id then
    match existing with
    | some receipt =>
      if receipt.status.isTerminal then pure (resultFromReceipt q.id receipt) else enqueueAnswer q state
    | none => enqueueAnswer q state
  else
    match existing with
    | some receipt =>
      if receipt.status = .queued ∧ (q.operation = .start ∨ q.operation = .switch) ∧ state.active.isSome ∧
          state.activeGame = q.target ∧ q.payload.fenced = false then
        finishIdle q receipt q.target "既に起動中です"
      else answerOrAcceptLocked cfg q state existing
    | none => answerOrAcceptLocked cfg q state existing

/-- The target of a restart at entry: the recorded one, else the active game. -/
def resolveRestart (q : ExecuteRequest) (state : Canonical) : M ExecuteRequest := do
  if q.operation = .restart ∧ q.target = none then
    let existing ← call (.loadReceipt q.id)
    pure { q with target := (existing.bind Receipt.target).or state.activeGame }
  else pure q

/-- `_execute_locked`, given what a request does that finds a drain. -/
def executeLockedWith (onDraining : ExecuteRequest → Canonical → M SwitchResult) (cfg : Config) (q : ExecuteRequest) :
    M SwitchResult := do
  let state ← initializeState
  let q ← resolveRestart q state
  if state.phase.broken then
    pure (q.report .failed (some "recovery_required") (some "canonical stateの復旧が必要です (`docich recover`)"))
  else if state.phase = .draining then onDraining q state
  else executeQueueLocked cfg q state

/-! ## While another request drains -/

/-- Recover an expired drain, then try again when the phase is `ready`; otherwise the fallback. A recovery that lost
the lock goes on all the same, without it. -/
def recoverThenExecuteLocked (cfg : Config) (again : ExecuteRequest → M SwitchResult) (q : ExecuteRequest)
    (fallback : M SwitchResult) : M SwitchResult := do
  let _ ← recoverLocked cfg q.deadline
  let current ← load
  if current.phase = .ready then again { q with games := [] } else fallback

/-- `_handle_draining_request_locked` for a request without a receipt: join the queue. -/
def joinQueueLocked (cfg : Config) (again : ExecuteRequest → M SwitchResult) (q : ExecuteRequest)
    (state : Canonical) : M SwitchResult := do
  require (state.requestId ≠ some q.id) .stateCorrupt "draining canonical requestに対応するreceiptがありません"
  let answer ← enqueueAnswer q state
  if ← wallDeadlineExpired state.deadlineAt then recoverThenExecuteLocked cfg again q (pure answer)
  else pure answer

/-- The recorded request that a retry during a drain is about: a restart follows its recorded target, a start the
recorded switch. -/
def recordedRequest (q : ExecuteRequest) (existing : Receipt) : Operation × Option GameName :=
  if q.operation = .restart ∧ existing.operation = .restart then (.restart, existing.target)
  else if q.operation = .start ∧ existing.operation = .switch then (.switch, q.target)
  else (q.operation, q.target)

/-- The report that the request still waits for its boundary. -/
def waitingReport (q : ExecuteRequest) (state : Canonical) (existing : Receipt) : SwitchResult where
  requestId := some q.id
  operation := .op existing.operation
  status := .inProgress
  target := existing.target
  fromGame := state.activeGame
  toGame := existing.target
  generation := some existing.generation
  detail := some "試合終了境界を待っています"
  receipt := some existing

/-- `_handle_draining_request_locked` for a request with a receipt. -/
def revisitLocked (cfg : Config) (again : ExecuteRequest → M SwitchResult) (q : ExecuteRequest) (state : Canonical)
    (existing : Receipt) : M SwitchResult := do
  let (operation, target) := recordedRequest q existing
  let q' := { q with target := target }
  if operation ≠ existing.operation ∨ target ≠ existing.target ∨
      existing.payloadHash ≠ ⟨existing.operation, existing.target, q.payload⟩ then
    pure (q'.report .requestConflict (some "request_conflict")
      (some "同じrequest_idが異なるoperation/target/payloadで使用されています"))
  else if existing.status.isTerminal then pure (resultFromReceipt q.id existing)
  else do
    let existing ← (if state.requestId ≠ some q.id ∧ existing.status ≠ .queued then requeueRequestLocked q.id
      else pure existing)
    let answer := if existing.status = .queued then queuedResult q.id existing state.activeGame
      else waitingReport q state existing
    if ← wallDeadlineExpired state.deadlineAt then recoverThenExecuteLocked cfg again q' (pure answer)
    else pure answer

def handleDrainingLocked (cfg : Config) (again : ExecuteRequest → M SwitchResult) (q : ExecuteRequest)
    (state : Canonical) : M SwitchResult := do
  match ← call (.loadReceipt q.id) with
  | none => joinQueueLocked cfg again q state
  | some existing => revisitLocked cfg again q state existing

/-- `_execute_locked`, within that many nested calls. -/
def executeWithin (cfg : Config) : Nat → ExecuteRequest → M SwitchResult
  | 0, _ => raise .runtime "maximum recursion depth exceeded"
  | n + 1, q => executeLockedWith (handleDrainingLocked cfg (executeWithin cfg n)) cfg q

def executeLocked (cfg : Config) (q : ExecuteRequest) : M SwitchResult := executeWithin cfg (cfg.recursionLimit + 1) q

/-! ## Calls -/

/-- `_classify_busy`: the answer of a request that could not enter. -/
def classifyBusy (q : ExecuteRequest) : M SwitchResult := do
  let receipt ← call (.loadReceipt q.id)
  let q := if followsSwitch q receipt then { q with operation := .switch } else q
  if q.operation = .restart ∧ receipt.bind Receipt.target = none then
    pure { q.report .busy (some "busy") (some "別のゲーム切替が進行中です") with target := none }
  else do
    let q := if q.operation = .restart then { q with target := receipt.bind Receipt.target } else q
    match ← attempt (classifyRequest q.id q.operation q.target q.payload) with
    | .error e =>
      match e.kind with
      | .requestConflict => pure (q.report .requestConflict (some "request_conflict") (some (safeDetail e)))
      | .busy => pure (q.report .busy (some "busy") (some (safeDetail e)))
      | _ => throw e
    | .ok a =>
      match a.status with
      | .terminal _ => pure (resultFromReceipt q.id a.receipt)
      | .queued => pure (queuedResult q.id a.receipt)
      | _ =>
        pure { q.report .inProgress none (some "同じrequestが進行中です") none none (some a.generation) with
          receipt := some a.receipt }

/-- One attempt to enter: `GameSwitchBusyError` from the lock or from the body counts as contention. -/
def enterOnce (purpose : Purpose) (body : M SwitchResult) (onBusy : Exc → M SwitchResult) : M SwitchResult := do
  match ← attempt (transaction purpose raiseBusy body) with
  | .ok r => pure r
  | .error e => if e.kind = .busy then onBusy e else throw e

/-- The entry loop: try again on contention until the window is over. -/
def retryBusy (purpose : Purpose) (body : M SwitchResult) (onBusy : Exc → M SwitchResult) (until_ : Ticks) :
    Nat → M SwitchResult
  | 0 => enterOnce purpose body onBusy
  | n + 1 => enterOnce purpose body fun e => do
    if until_ ≤ (← monotonic) then onBusy e
    else retryBusy purpose body onBusy until_ n

/-- The payload of a capped request: an old receipt without the marker keeps its identity. -/
def cappedPayload (id : RequestId) (operation : Operation) (target : Option GameName) (payload : Payload)
    (allowExtension : Bool) : M Payload := do
  if allowExtension then pure payload
  else do
    let existing ← call (.loadReceipt id)
    let legacyOperation := if operation = .start ∧
        existing.any (fun r => r.operation = .switch && r.target = target) then .switch else operation
    if existing.any fun r => r.target = target && r.payloadHash = ⟨legacyOperation, target, payload⟩ then
      pure payload
    else pure { payload with boundaryCapped := true }

/-- The check of a request at entry: a restart names no game yet. -/
def checkRequest (operation : Operation) (target : Option GameName) : M Unit :=
  if operation = .restart then
    require (target = none) .nameValidation "restart にはtarget gameを指定できません"
  else ofExcept (validateRequest operation target)

def execute (cfg : Config) (operation : Operation) (target : Option GameName) (games : List GameName)
    (id : RequestId) (timeout : Option Ticks) (payload : Payload) (allowExtension : Bool) : M SwitchResult := do
  checkRequest operation target
  let payload ← cappedPayload id operation target payload allowExtension
  let payload := if operation = .rotate then { payload with rotationGames := some games } else payload
  let timeout := timeout.getD cfg.defaultTimeout
  require (0 < timeout) .value "timeout_s は正の値である必要があります"
  let deadline := (← monotonic) + timeout
  let deadlineAt := (← call .glance) + timeout.toNat
  let q : ExecuteRequest := ⟨id, operation, target, payload, deadline, deadlineAt, games, allowExtension⟩
  let until_ := (← monotonic) + min 1000000 (max (deadline - (← monotonic)) 0)
  retryBusy (.execute id operation target payload) (executeLocked cfg q) (fun _ => classifyBusy q) until_
    cfg.entryPolls

/-- `rotate`, with its check of the rotation list. -/
def rotate (cfg : Config) (games : List GameName) (id : RequestId) (timeout : Option Ticks) (payload : Payload) :
    M SwitchResult :=
  if games = [] then
    pure { requestId := some id, operation := .op .rotate, status := .failed, errorCode := some "invalid_rotation"
           detail := some "rotation games が空です" }
  else execute cfg .rotate none games id timeout payload true

def recover (cfg : Config) (timeout : Option Ticks) (abandonProgramView : Bool) (expected : Option Canonical)
    (adoptFailedCandidate : Bool) : M SwitchResult := do
  let deadline := (← monotonic) + timeout.getD cfg.defaultTimeout
  let until_ := (← monotonic) + min 1000000 (max (deadline - (← monotonic)) 0)
  retryBusy .recover
    (do
      let observed ← call .loadCanonical
      if expected.isSome ∧ observed.map Subtype.val ≠ expected then
        pure (recoverReport .failed (some "source_fence_lost") (some "recover source changed before execution") [] true)
      else recoverLocked cfg deadline abandonProgramView adoptFailedCandidate)
    (fun e => pure (recoverReport .busy (some "busy") (some (safeDetail e)) [] false)) until_ cfg.entryPolls

/-- A report of `resume_queued` about the queue as a whole. -/
def fifoReport (operation : Reported) (status : SwitchStatus) (fromGame : Option GameName) (errorCode : Option String)
    (detail : String) : SwitchResult where
  requestId := none
  operation := operation
  status := status
  fromGame := fromGame
  errorCode := errorCode
  detail := some detail

/-- The protected part of `resume_queued`: a report, or the head of the queue. -/
def queueHeadLocked : M (Stage (RequestId × Receipt)) := do
  let state ← initializeState
  if ¬ state.phase.stable then
    pure (.error (fifoReport .resumeFifo .busy state.activeGame (some "busy") "canonical phaseのためFIFOを開始できません"))
  else
    match ← receiptsQueued with
    | [] => pure (.error (fifoReport .resumeFifo .succeeded state.activeGame none "ゲーム切替FIFOは空です"))
    | (id, head) :: _ => do
      let now ← call .now
      if hardDeadlineOver head.hardDeadlineAt now then do
        let saved ← finishRequestLocked id .failed
          (deadlineResult id head.operation state.activeGame head.target head.generation
            "FIFO requestのhard deadlineがclaim前に終了しました")
        pure (.error (resultFromReceipt id saved))
      else pure (.ok (id, head))

/-- The replay of a queue head, from what its receipt holds. -/
def replayHead (cfg : Config) (id : RequestId) (head : Receipt) (timeout : Option Ticks) : M SwitchResult :=
  let allow := head.allowBoundaryTimeoutExtension.getD true
  match head.operation, head.target with
  | .start, some target => execute cfg .start (some target) [] id timeout {} allow
  | .switch, some target => execute cfg .switch (some target) [] id timeout {} allow
  | .stop, none => execute cfg .stop none [] id timeout {} true
  | .restart, some _ => execute cfg .restart none [] id timeout {} true
  | operation, target =>
    pure { requestId := some id, operation := .op operation, status := .failed, target := target, toGame := target
           generation := some head.generation, errorCode := some "recovery_required"
           detail := some "FIFO先頭のrequestを安全に再実行できないため、先頭を保持しました", receipt := some head }

def resumeQueued (cfg : Config) (timeout : Option Ticks) : M SwitchResult := do
  match ← attempt (transaction .resumeQueued raiseBusy queueHeadLocked) with
  | .error e =>
    if e.kind = .busy then pure (fifoReport .resumeFifo .busy none (some "busy") (safeDetail e)) else throw e
  | .ok (.error r) => pure r
  | .ok (.ok (id, head)) =>
    match head.hardDeadlineAt with
    | none => replayHead cfg id head timeout
    | some hard => do
      let now ← call .glance
      replayHead cfg id head (some (max (min (timeout.getD cfg.defaultTimeout) ((hard : Int) - (now : Int))) 1))

/-- A report of `maintain_fifo` about the request that owns the state. -/
def ownerReport (state : Canonical) (status : SwitchStatus) (errorCode detail : String) : SwitchResult where
  requestId := state.requestId
  operation := state.operation.elim .maintainFifo .op
  status := status
  fromGame := state.activeGame
  generation := state.active.map Runtime.generation
  errorCode := some errorCode
  detail := some detail

/-- The protected part of `maintain_fifo`: a report, or the recovery of an expired drain. -/
def maintainLocked (cfg : Config) (timeout : Option Ticks) : M (Stage (Option SwitchResult)) := do
  let state ← initializeState
  if state.phase = .draining then
    if ¬ (← wallDeadlineExpired state.deadlineAt) then
      pure (.error (ownerReport state .busy "busy" "試合終了境界の待機中です。deadline前のdrainingには触れません"))
    else do
      let deadline := (← monotonic) + timeout.getD cfg.defaultTimeout
      let recovered ← recoverDrainingLocked cfg state deadline
      let current ← load
      if current.phase ≠ .ready then pure (.error recovered) else pure (.ok (some recovered))
  else if state.phase.stable then pure (.ok none)
  else pure (.error (ownerReport state .failed "recovery_required" "canonical phaseは自動FIFO復旧の対象外です"))

def maintainFifo (cfg : Config) (timeout : Option Ticks) : M SwitchResult := do
  match ← attempt (transaction .maintainFifo raiseBusy (maintainLocked cfg timeout)) with
  | .error e =>
    if e.kind = .busy then pure (fifoReport .maintainFifo .busy none (some "busy") (safeDetail e)) else throw e
  | .ok (.error r) => pure r
  | .ok (.ok recovered) => do
    let resumed ← resumeQueued cfg timeout
    match recovered with
    | some r => if resumed.requestId = none then pure r else pure resumed
    | none => pure resumed

/-! ## Every call -/

inductive Call where
  | start (game : GameName) (id : RequestId) (timeout : Option Ticks) (payload : Payload) (allowExtension : Bool)
  | stop (id : RequestId) (timeout : Option Ticks) (payload : Payload)
  | switch (game : GameName) (id : RequestId) (timeout : Option Ticks) (payload : Payload) (allowExtension : Bool)
  | restart (id : RequestId) (timeout : Option Ticks) (payload : Payload)
  | rotate (games : List GameName) (id : RequestId) (timeout : Option Ticks) (payload : Payload)
  | recover (timeout : Option Ticks) (abandonProgramView : Bool) (expected : Option Canonical)
      (adoptFailedCandidate : Bool)
  | resumeQueued (timeout : Option Ticks)
  | maintainFifo (timeout : Option Ticks)

def callProgram (cfg : Config) : Call → M SwitchResult
  | .start game id timeout payload allow => execute cfg .start (some game) [] id timeout payload allow
  | .stop id timeout payload => execute cfg .stop none [] id timeout payload true
  | .switch game id timeout payload allow => execute cfg .switch (some game) [] id timeout payload allow
  | .restart id timeout payload => execute cfg .restart none [] id timeout payload true
  | .rotate games id timeout payload => rotate cfg games id timeout payload
  | .recover timeout abandon expected adopt => recover cfg timeout abandon expected adopt
  | .resumeQueued timeout => resumeQueued cfg timeout
  | .maintainFifo timeout => maintainFifo cfg timeout

end Docich.GameSwitch
