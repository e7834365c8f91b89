import Docich.HanjukuWager.Disk

/-!
# A tick of the wager

- `result`: the durable result of a run;
- `recordSettled`, `recordCanceled`, `saveCancelSnapshot`: what is recorded of a round that has ended;
- `settle`: a round that is not done: adopt its row, end it, or go on;
- `openRound`, `createRound`: a new round, and the call of `create`;
- `advance`, `tick`, and `code`, the programs of all processes.

`state` of the source is the memory of a tick and `row` its round. Health records are left out.
-/

namespace Docich.HanjukuWager

open Durable.Locks.Work (throw get modify ask ofExcept handle locking)
open Predictions (Text)
open Wire (Json)

/-! ## Memory -/

def setMode (mode : Mode) : Work Unit := modify fun s => { s with mode := mode }

/-- Replace fields of the round in memory. -/
def updateRow (f : Round → Round) : Work Unit := modify fun s => { s with round := s.round.map f }

def setStatus (status : Status) : Work Unit := updateRow fun row => { row with status := status }

/-- `remote['status'].lower()` -/
def Status.mode : Status → Mode
  | .RESOLVED => .resolved
  | .CANCELED => .canceled
  | _ => .active

/-! ## Results -/

def result (identity : Identity) : Work (Option Result) := do
  match ← terminal identity with
  | none => pure none
  | some evidence =>
    match ← readResult identity with
    | some saved =>
      if checkedResult saved identity && saved.reason = evidence.terminal_reason &&
          saved.frame_sha256 = evidence.frame_sha256 then
        pure (some saved)
      else throw .other
    | none =>
      let cleared ← completedCount identity
      let result : Result := ⟨identity, evidence.terminal_reason, evidence.frame_sha256, cleared⟩
      writeResult identity result
      pure (some result)

def resumeTargetReached (row : Round) : Work Bool := do
  if row.kind = .resume then
    let cleared ← completedCount row.identity
    pure (cleared.any (row.target ≤ ·))
  else pure false

/-! ## Records of ended rounds -/

/-- `leaderboard.extract`, or `invalid_response`. What `str` makes of a value that is no string is a parameter. -/
def extractable (str : Json → Text) (row : Remote) : Work Unit :=
  match Predictions.extract str row.json with
  | .ok _ => pure ()
  | .error _ => throw (.api .invalid_response false)

/-- The row with the identifier in a list that is read again. -/
def reread (id : Text) : Work (Option Remote) := do
  let rows ← listRows (some id)
  pure (rows.find? fun row => row.id = id)

def record (row : Remote) (now : ℚ) (cancel_reason : Option Text) : Work Bool := do
  ofExcept (← ask (.record row ⌊now⌋ cancel_reason))

/-- A row without predictors is read again. -/
def settledCandidate (remote : Remote) : Work Remote :=
  if hasPredictors remote then pure remote
  else do
    match ← reread remote.id with
    | some row => pure (if row.status = .RESOLVED then row else remote)
    | none => pure remote

def recordSettled (str : Json → Text) (remote : Remote) (now : ℚ) : Work Bool := do
  let candidate ← settledCandidate remote
  extractable str candidate
  record candidate now none

/-- The richer of two rows; the first of equals. -/
def richer (candidate : Option Remote) (row : Remote) : Option Remote :=
  if candidate.all fun c => evidenceRank c < evidenceRank row then some row else candidate

/-- The richest of the rows that are evidence of a canceled round. -/
def richest (str : Json → Text) : List Remote → Option Remote → Work (Option Remote)
  | [], candidate => pure candidate
  | source :: sources, candidate =>
    match canceledCandidate source with
    | none => richest str sources candidate
    | some annotated => do
      extractable str annotated
      richest str sources (richer candidate annotated)

/-- A candidate without predictors is compared with the row that is read again. -/
def enriched (candidate : Option Remote) (sources : List Remote) : Work (Option Remote) :=
  if candidate.any hasPredictors then pure candidate
  else match sources.head? with
    | none => pure candidate
    | some source => do
      match (← reread source.id).bind canceledCandidate with
      | some annotated => pure (richer candidate annotated)
      | none => pure candidate

def recordCanceled (str : Json → Text) (now : ℚ) (sources : List Remote) : Work Bool := do
  let candidate ← richest str sources none
  let candidate ← enriched candidate sources
  match candidate with
  | none => throw (.api .invalid_response false)
  | some candidate =>
    extractable str candidate
    record candidate now (some Predictions.noContest)

def checkCancelSnapshot (str : Json → Text) (snapshot : Remote) (row : Round) : Bool :=
  snapshot.status = .CANCELED && isOf row snapshot && noContest snapshot &&
    (Predictions.extract str snapshot.json).toOption.isSome

def loadCancelSnapshot (str : Json → Text) (row : Round) (id : Text) : Work (Option Remote) := do
  match ← ofExcept (← ask (.read_snapshot id)) with
  | none => pure none
  | some snapshot => if checkCancelSnapshot str snapshot row then pure (some snapshot) else throw .other

/-- A snapshot that was checked is written. -/
def storeSnapshot (id : Text) : Option Remote → Work Remote
  | none => throw (.api .invalid_response false)
  | some snapshot => do
    if ← snapshotFits snapshot then
      match ← tryWriteSnapshot id snapshot with
      | .ok _ => pure snapshot
      | .error _ => throw (.api .leaderboard false)
    else throw (.api .invalid_response false)

def saveCancelSnapshot (str : Json → Text) (row : Round) (id : Text) (remote : Remote) : Work Remote := do
  if remote.status ≠ .LOCKED then throw (.api .invalid_response false)
  else
    match ← loadCancelSnapshot str row id with
    | some existing => pure existing
    | none => storeSnapshot id ((canceledCandidate remote).filter (checkCancelSnapshot str · row))

def unlinkSnapshot (id : Text) : Work Unit := do ofExcept (← ask (.unlink_snapshot id))

/-- A record of malformed statistics is not tried again: the round is done. -/
def noteMalformed (status : Status) : Exc → Work Unit
  | .api .invalid_response _ => setStatus status
  | _ => pure ()

def ending (status : Status) (recording : Work Bool) : Work Unit :=
  handle (do let _ ← recording) fun e => do
    noteMalformed status e
    throw e

/-! ## A round that is not done -/

/-- What a tick knows of its round and of the canonical state. -/
structure View where
  now : ℚ
  resume_reached : Bool
  ready : Bool
  /-- The active run is that of the round. -/
  same : Bool

/-- The row the bets are counted in: the row after the lock, when it has counts. -/
def lockedRow (row : Round) (id : Text) (remote : Remote) : Work Remote := do
  if remote.status = .ACTIVE then
    match ← endPrediction id .LOCKED none with
    | [locked] => pure (if isOf row locked && (contestedOutcomes locked).isSome then locked else remote)
    | _ => pure remote
  else pure remote

/-- The only row of a response, which is that of the round and has the wanted status. -/
def confirmed (row : Round) (desired : Status) : List Remote → Work Remote
  | [response] => if isOf row response && response.status = desired then pure response
      else throw (.api .invalid_response false)
  | _ => throw (.api .invalid_response false)

/-- End the round: with an outcome, or, without one, as canceled. -/
def conclude (str : Json → Text) (now : ℚ) (row : Round) (id : Text) (remote : Remote) (index : Option ℕ) :
    Work Unit := do
  setMode .settling
  saveLedger
  match index with
  | none =>
    let _ ← confirmed row .CANCELED (← endPrediction id .CANCELED none)
    setStatus .CANCELED
    setMode .canceled
  | some index =>
    let settled_from ← lockedRow row id remote
    if noContest settled_from then
      let snapshot ← saveCancelSnapshot str row id settled_from
      let response ← confirmed row .CANCELED (← endPrediction id .CANCELED none)
      ending .CANCELED (recordCanceled str now [response, snapshot])
      unlinkSnapshot id
      setStatus .CANCELED
      setMode .canceled
    else
      match row.outcome_ids[index]? with
      | none => throw .other
      | some outcome =>
        let response ← confirmed row .RESOLVED (← endPrediction id .RESOLVED (some outcome))
        ending .RESOLVED (recordSettled str response now)
        setStatus .RESOLVED
        setMode .resolved

/-- The outcome that is decided, if any: by the reached target, or by the result. -/
def decideIndex (row : Round) (resume_reached : Bool) : Except Exc (Option ℕ) :=
  if resume_reached then .ok (some 0)
  else match row.result with
    | some result => resolveIndex row result
    | none => .ok none

/-- The row of the round is live: end it, or go on. -/
def proceed (str : Json → Text) (view : View) (row : Round) (id : Text) (remote : Remote) : Work Unit := do
  let index ← ofExcept (decideIndex row view.resume_reached)
  let cancel := row.result.isSome && index.isNone || (view.ready && !view.same && row.result.isNone)
  if !view.ready && row.result.isNone then setMode .pending
  else if row.result.isSome || view.resume_reached || cancel then
    conclude str view.now row id remote (if cancel then none else index)
  else do
    setMode .active
    let cleared ← completedCount row.identity
    if remote.status = .ACTIVE && cleared.any (row.target ≤ ·) then do
      let _ ← endPrediction id .LOCKED none
    else pure ()

def Round.adopt (row : Round) (remote : Remote) : Round :=
  if row.id.isNone then { row with id := some remote.id, outcome_ids := remote.outcomes.map Outcome.id } else row

/-- What is recorded of a row that has ended. -/
def recordFound (str : Json → Text) (now : ℚ) (adopted : Round) (remote : Remote) : Work Unit :=
  match remote.status with
  | .RESOLVED => ending .RESOLVED (recordSettled str remote now)
  | .CANCELED => do
    let snapshot ← loadCancelSnapshot str adopted remote.id
    if snapshot.isSome || noContest remote then
      ending .CANCELED (recordCanceled str now (remote :: snapshot.toList))
      unlinkSnapshot remote.id
    else pure ()
  | _ => pure ()

def found (str : Json → Text) (view : View) (row : Round) (remote : Remote) : Work Unit := do
  let adopted := row.adopt remote
  updateRow fun _ => adopted
  recordFound str view.now adopted remote
  setStatus remote.status
  saveLedger
  if remote.status.done then setMode remote.status.mode
  else proceed str view { adopted with status := remote.status } remote.id remote

/-! ## A new round -/

/-- The run of the round is no longer the ready one, or has ended. -/
def outrun (row : Round) (canonical : Canonical) : Work Bool :=
  if !canonical.ready || canonical.active ≠ some row.identity then pure true
  else do pure (← terminal row.identity).isSome

/-- A definitive rejection did not create the round. -/
def noteRejected (e : Exc) : Work Unit :=
  if e.rejected then updateRow fun row => { row with attempted := false } else pure ()

/-- The prediction that was created. -/
def Round.created (row : Round) (created : Remote) : Round :=
  { row with
    id := some created.id
    outcome_ids := created.outcomes.map Outcome.id
    status := created.status }

/-- The call of `create`, after a last look. -/
def createRound (remote_rows : List Remote) : Work Unit := do
  match (← get).round with
  | none => throw .other
  | some row =>
    let canonical ← readCanonical
    if ← outrun row canonical then setMode .pending
    else
      let cleared ← completedCount row.identity
      if cleared.any (row.target ≤ ·) then
        setStatus .CANCELED
        setMode .known_result
      else if remote_rows.any (·.status.live) then setMode .blocked
      else
        updateRow fun row => { row with attempted := true }
        setMode .pending
        saveLedger
        let created ← handle (create row) fun e => do
          noteRejected e
          throw e
        match created with
        | [created] =>
          if isOf row created && created.status.live then
            updateRow fun row => row.created created
            setMode .active
          else throw (.api .invalid_response false)
        | _ => throw (.api .invalid_response false)

/-- A round that is not done: `live_owner` says that the tick is that of the active run. -/
def settle (str : Json → Text) (view : View) (row : Round) (live_owner paused : Bool) : Work Unit := do
  let remote_rows ← listRows row.id
  match remote_rows.filter (isOf row) with
  | [remote] => found str view row remote
  | [] =>
    if row.id.isSome then throw (.api .remote_missing false)
    else if row.attempted then throw (.api .create_unknown false)
    else if !live_owner || !view.same || paused then
      setStatus .CANCELED
      setMode .canceled
    else createRound remote_rows
  | _ => throw (.api .remote_mismatch false)

/-- The settings of a tick. -/
structure Config where
  enabled : Bool
  seed : ℕ
  ending_window : ℕ
  seed_pos : 1 ≤ seed
  seed_le : seed ≤ MAX_CHAPTER
  window_ge : 30 ≤ ending_window
  window_le : ending_window ≤ 1800

/-- The kind and the target of a new round; or the mode of a tick that opens none. -/
def newBounds (best : ℕ) : Option (Option ℕ) → Except Exc (Mode ⊕ (Kind × ℕ))
  | some none => .ok (.inl .pending)
  | some (some chapter) => .ok (.inr (.resume, chapter))
  | none => (thresholds best).map fun
    | none => .inl .complete_record
    | some (target, middle) => .inr (.range middle, target)

def newRound (identity : Identity) (kind : Kind) (target window : ℕ) (nonce : Text) : Round where
  identity := identity
  kind := kind
  target := target
  nonce := nonce
  title := match kind with
    | .range _ => titleOf nonce
    | .resume => resumeTitleOf target nonce
  outcome_titles := match kind with
    | .range middle => outcomeTitles target middle
    | .resume => resumeOutcomeTitles target
  window := window
  attempted := false
  status := .INTENT

/-- No round, or one that is done. -/
def openRound (cfg : Config) (identity : Identity) (paused : Bool) : Work Unit := do
  let state ← get
  if state.round.any (·.identity = identity) then pure ()
  else if paused then setMode .paused
  else
    let resume ← resumePredictionContext identity
    match ← ofExcept (newBounds state.best_cleared resume) with
    | .inl mode => setMode mode
    | .inr (kind, target) =>
      let cleared ← completedCount identity
      if cleared.any (target ≤ ·) then setMode .known_result
      else
        let remote_rows ← listRows none
        if remote_rows.any (·.status.live) then setMode .blocked
        else
          let nonce ← tokenHex
          let window ← ofExcept (votingWindow target cfg.ending_window)
          modify fun s => { s with round := some (newRound identity kind target window nonce) }
          createRound remote_rows

/-! ## Ticks -/

/-- The durable result of the run of a tick. -/
def completedResult (cached : Option Result) : Option Identity → Work (Option Result)
  | none => pure none
  | some identity =>
    match cached with
    | some r => if r.identity = identity then pure (some r) else result identity
    | none => result identity

/-- The durable result of a round that is not done. -/
def ownedResult : Option Round → Work (Option Result)
  | none => pure none
  | some row =>
    if row.status.done then pure none
    else match row.result with
      | some r => pure (some r)
      | none => result row.identity

/-- A completion raises the record. -/
def State.completed (s : State) (r : Option Result) : State :=
  { s with best_cleared := max s.best_cleared ((r.bind Result.cleared).getD 0) }

/-- The target of a round that is not done. -/
def rowReached : Option Round → Work Bool
  | none => pure false
  | some row => if row.status.done then pure false else resumeTargetReached row

def keepResult (owned_completed : Option Result) : Work Unit :=
  if owned_completed.isSome then updateRow fun row => { row with result := owned_completed } else pure ()

def advance (str : Json → Text) (cfg : Config) (identity : Option Identity) (now : ℚ) : Work Unit := do
  let row := (← get).round
  let completed ← completedResult (row.bind Round.result) identity
  let owned_completed ← ownedResult row
  modify fun s => (s.completed completed).completed owned_completed
  let resume_reached ← rowReached row
  let new_settlement := owned_completed.isSome && row.any (·.result.isNone) || resume_reached
  keepResult owned_completed
  saveLedger
  let state ← get
  if now < state.last_poll_at then throw (.api .clock_regressed false)
  else if now < state.next_poll_at && !new_settlement then pure ()
  else if identity.isNone && row.all (·.status.done) && !new_settlement then pure ()
  else do
    modify fun s => { s with last_poll_at := now, next_poll_at := now + POLL_SECONDS, error := none }
    if !cfg.enabled then setMode .disabled
    else
      match ← clientFactory with
      | some unavailable => setMode unavailable
      | none =>
        let canonical ← readCanonical
        let live_owner := identity.isSome && canonical.ready && canonical.active = identity && completed.isNone
        let paused ← isPaused
        match (← get).round with
        | some row =>
          if !row.status.done then
            settle str ⟨now, resume_reached, canonical.ready, canonical.active = some row.identity⟩ row live_owner
              paused
          else match identity with
            | some identity => if live_owner then openRound cfg identity paused else pure ()
            | none => pure ()
        | none =>
          match identity with
          | some identity => if live_owner then openRound cfg identity paused else pure ()
          | none => pure ()

/-- The error of a tick that failed. -/
def Exc.code : Exc → Code
  | .api code _ => code
  | .other => .invalid_state

/-- The part of a tick under the lock. -/
def guarded (str : Json → Text) (cfg : Config) (identity : Option Identity) (now : ℚ) : Work Unit := do
  let state ← ofExcept (load cfg.seed (← ofExcept (← ask .load)))
  modify fun _ => state
  handle (advance str cfg identity now) fun e =>
    modify fun s => { s with mode := .error, error := some e.code, next_poll_at := now + RETRY_SECONDS }
  saveLedger

def tick (str : Json → Text) (cfg : Config) (identity : Option Identity) (now : ℚ) : Work Unit :=
  let locked := locking .predictions (guarded str cfg identity now) (pure ())
  if identity.isNone then do
    if ← ask Ask.exists_ then locked else pure ()
  else locked

/-- A process: a tick, or something the rest of the program does. -/
inductive Call
  | tick (cfg : Config) (identity : Option Identity) (now : ℚ)
  | change (c : Change)

/-- The ledger before `load`: nothing reads it. -/
def blank : State := ⟨0, none, .idle, 0, 0, none⟩

/-- A tick at an invalid clock, or for an invalid identity, does nothing. -/
def Call.work (str : Json → Text) : Call → Work Unit
  | .tick cfg identity now =>
    if 0 ≤ now ∧ identity.all Identity.checked = true then HanjukuWager.tick str cfg identity now
    else throw .other
  | .change c => ask (Ask.change c)

def code (str : Json → Text) (k : Call) : Durable.Locks.LockProgram Lock Ask Ask.Answer (State × Exc) (State × Unit) :=
  k.work str blank

end Docich.HanjukuWager
