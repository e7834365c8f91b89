import Docich.Rotation.Slot

/-!
# The rotation timer

- `importManualQueue`: transfer a due manual request from the inbox to the ledger;
- `autoReleaseLatch`: clear the latch of a failed corner without an operator;
- `manualStage`, `takeQueued`, `reserve`, `dispatch`: the parts of `tick`, in their order;
- `tickFailed`: what `tick` does with an exception;
- `tick`, `recover`.
-/

namespace Docich.Rotation

open Durable.Locks.Work (throw get modify ofExcept handle fold locking)

/-! ## The inbox -/

def importManualQueue (now : Time) : Work (Option Request) :=
  withInbox do
    match ← readManualQueue with
    | none => pure none
    | some request =>
      if request.trigger_at.any (now < ·) then pure (some request)
      else
        let state ← get
        if state.queued_manual.any (· ≠ request) then
          throw { text := "conflicting manual queue ownership", reason_code := some "manual_queue_conflict" }
        else
          update fun s => { s with queued_manual := some request }
          saveState
          unlinkManualQueue .imported
          pure none

/-! ## The latch -/

def AUTO_RESTORE_ATTEMPT_LIMIT : Nat := 3

/-- `AUTO_RESTORE_BACKOFF_SECONDS`, after the given attempt. -/
def backoff : Nat → Time
  | 0 | 1 => 300
  | 2 => 900
  | _ => 2700

/-- The budget of the request: a new reservation starts a fresh one. -/
def autoRestoreBudget (p : Pending) (now : Time) (s : Ledger) : AutoRestore :=
  match s.auto_restore with
  | some record =>
    if record.request_id = p.request_id then record
    else { request_id := p.request_id, corner := p.corner, attempts := 0, next_attempt_at := now,
           exhausted_recorded := false }
  | none => { request_id := p.request_id, corner := p.corner, attempts := 0, next_attempt_at := now,
              exhausted_recorded := false }

def runAutoRestoreRecovery (m : Manager) (p : Pending) (now : Time) : Work (Option Outcome) := do
  if !(← restoreRunner p.corner) then pure none
  else
    let state ← get
    let record := autoRestoreBudget p now state
    update fun s => { s with auto_restore := some record }
    if AUTO_RESTORE_ATTEMPT_LIMIT ≤ record.attempts ∨ now < record.next_attempt_at then
      if AUTO_RESTORE_ATTEMPT_LIMIT ≤ record.attempts ∧ !record.exhausted_recorded then
        update fun s => { s with auto_restore := some { record with exhausted_recorded := true } }
        recordFailedCorner p.corner (.request p.request_id) .recovery_required
          (state.error_kind.getD .executionUnverified) now (some "restore-recovery-exhausted")
        pure none
      else pure none
    else
      recoverFailedRestore p.corner
      let tried := { record with
        attempts := record.attempts + 1
        next_attempt_at := now + backoff (record.attempts + 1) }
      update fun s => { s with auto_restore := some tried }
      handle (commitVerifiedFailedStart m p.reservation now) fun _ => pure none

/-- The slot decides when no receipt does. -/
def releaseLatched (m : Manager) (p : Pending) (kind : ErrorKind) (now : Time) : Work (Option Outcome) := do
  let leftover ← leftoverCornerGame m p.corner p.request_id
  let replayed ← (if leftover then runAutoRestoreRecovery m p now else pure none)
  match replayed with
  | some outcome => pure (some outcome)
  | none =>
    let reusable ← slotReusable m p.corner p.request_id
    if reusable then
      let outcome ← releaseFailedCorner m p kind now leftover
      pure (some outcome)
    else
      recordFailedCornerOnce p.corner (.request p.request_id) .recovery_required kind now none
      pure none

def autoReleaseLatch (m : Manager) (now : Time) : Work (Option Outcome) := do
  let state ← get
  match state.pending, state.manual_pending with
  | some p, none =>
    if !m.has p.corner then pure none
    else
      let committed ← handle (commitVerifiedFailedStart m p.reservation now) fun _ => pure none
      match committed with
      | some outcome => pure (some outcome)
      | none => releaseLatched m p (state.error_kind.getD .executionUnverified) now
  | _, _ => pure none

/-! ## Manual reservations -/

/-- How far `tick` has come with a manual reservation: it has ended, has to be committed at a later time, or goes on
with what is left of the reservation. -/
inductive Stage
  | done (outcome : Outcome)
  | settled (manual : Manual) (at_ : Time)
  | go (manual : Option Manual)

/-- Some row of the request is busy since before the time. -/
def startedBefore (expires : Time) (owned : List Observation) : Except Failure Bool :=
  owned.anyM fun raw => match raw.started_at with
    | some t => if raw.status.busy then (timestamp t).map (· ≤ expires) else .ok false
    | none => .ok false

/-- A capture profile that ran out: released only when nobody took the reservation up. -/
def expireCapture (m : Manager) (manual : Manual) (expires now : Time) : Work Stage := do
  match ← commitVerifiedFailedStart m manual.reservation now with
  | some outcome =>
    saveState
    pure (.done outcome)
  | none =>
    let raws ← (if m.has manual.corner then observations manual.corner else pure [])
    let owned := ownedBy manual.request_id raws
    let started ← ofExcept (startedBefore expires owned)
    if owned.any (fun raw => raw.status.terminal) || started then pure (.go (some manual))
    else
      let found ← (if owned.isEmpty then observe m now else pure { busy := true })
      let unowned ← (if !found.busy && m.has manual.corner then
        expiredCaptureUnowned manual.corner manual.state_file else pure false)
      if !unowned then
        let outcome ← wait "manual-capture-profile-expired"
        pure (.done outcome)
      else
        update fun s =>
          { s with
            manual_pending := none
            status := .ready
            reason := none
            last_result := some { corner := manual.corner, request_id := manual.request_id, status := "expired",
                                  at_ := now } }
        pure (.go none)

/-- The start of a manual reservation may have been rolled back. -/
def verifyManual (m : Manager) (manual : Manual) (now : Time) : Work Stage := do
  match ← commitVerifiedFailedStart m manual.reservation now with
  | some _ =>
    saveState
    pure (.go none)
  | none => pure (.go (some manual))

/-- A switch that failed in the middle of restoring is replayed with the same reservation. -/
def restoreManual (m : Manager) (manual : Manual) (now : Time) : Work Stage := do
  if !m.has manual.corner then verifyManual m manual now
  else
    let file ← runRotationFile manual.corner
    if file = some manual.state_file then
      let raws ← observations manual.corner
      let owned := ownedBy manual.request_id raws
      if 1 < owned.length then throw { text := "ambiguous restoring manual owner", kind := .executionUnverified }
      else if owned.any fun raw => raw.status = .restoring then
        let resumed ← execute manual.corner manual.toRequest
        if resumed = "completed" ∨ resumed = "interrupted" then
          let settled_at ← clock
          if settled_at < now then throw { text := "clock regressed" }
          else pure (.settled manual settled_at)
        else if resumed = "queued" ∨ resumed = "waiting" ∨ resumed = "already-running" then
          let outcome ← wait "manual-execution-pending"
          pure (.done outcome)
        else throw { text := "manual restoring retry unverified", kind := .executionUnverified }
      else verifyManual m manual now
    else verifyManual m manual now

def manualStage (m : Manager) (now : Time) : Work Stage := do
  let state ← get
  match state.manual_pending with
  | none => pure (.go none)
  | some manual =>
    let stage ← (match manual.capture_profile_expires_at with
      | some expires => if expires < now then expireCapture m manual expires now else pure (.go (some manual))
      | none => pure (.go (some manual)))
    match stage with
    | .go (some manual) => restoreManual m manual now
    | stage => pure stage

/-! ## Selecting and dispatching -/

/-- The answer of a wait, or the request to go on with. -/
inductive Chosen (α : Type)
  | done (outcome : Outcome)
  | go (a : α)

def targetInterval (m : Manager) (eligible : List String) : Option Time :=
  match m.configured_interval with
  | some interval => some interval
  | none => if eligible.isEmpty then none else some (DAY / eligible.length)

/-- Corners with a use after the given time less the cooldown. -/
def cooling (m : Manager) (history : List Use) (at_ : Time) (corner : String) : Bool :=
  history.any fun r => r.corner = corner && at_ - m.cooldown_seconds < r.at_

def autoCandidates (m : Manager) (s : Ledger) (eligible : List String) (at_ : Time) (reserved : Option String) :
    List String :=
  eligible.filter fun c => !cooling m s.history at_ c && reserved ≠ some c

/-- The earliest time at which a cooling corner can recur. -/
def cooldownDueAt (m : Manager) (history : List Use) (eligible : List String) (now : Time) : Option Time :=
  ((history.filter fun r => eligible.contains r.corner && now - m.cooldown_seconds < r.at_).map
    fun r => r.at_ + m.cooldown_seconds).min?

/-- The first candidate of least rank. -/
def pick (m : Manager) (s : Ledger) : List String → Option String
  | [] => none
  | c :: cs => some (cs.foldl (fun best c => if m.rank s.seed s.slot c < m.rank s.seed s.slot best then c else best) c)

/-- A due manual request takes the free slot. -/
def takeQueued (m : Manager) (now : Time) (manual_eligible : List String) : Work (Chosen (Option Pending)) := do
  let state ← get
  match state.pending, state.queued_manual with
  | none, some queued =>
    if queued.trigger_at.all (· ≤ now) then
      if !m.has queued.corner then throw { text := "queued manual corner removed", kind := .catalogMismatch }
      else if !manual_eligible.contains queued.corner then
        let outcome ← wait "queued-manual-disabled-or-paused"
        pure (.done outcome)
      else
        let pending : Pending := { queued with phase := .selected, manual := true }
        update fun s => { s with pending := some pending, queued_manual := none, slot := s.slot + 1 }
        saveState
        pure (.go (some pending))
    else pure (.go none)
  | pending, _ => pure (.go pending)

/-- What to wait for when no candidate is left. -/
def waitForCandidates (m : Manager) (now : Time) (eligible : List String) (future : Option Request) : Work Outcome := do
  let state ← get
  let reserved := future.map Request.corner
  let cooldown_due := cooldownDueAt m state.history (eligible.filter fun c => reserved ≠ some c) now
  let trigger_due := future.bind Request.trigger_at
  (match (cooldown_due.toList ++ trigger_due.toList).min? with
    | some due => update fun s => { s with next_due_at := due }
    | none => pure ())
  if trigger_due.any fun t => cooldown_due.all (t ≤ ·) then wait "scheduled-manual-not-due"
  else wait "all-corners-cooling-down"

/-- An automatic reservation, written ahead of any side effect. -/
def reserve (m : Manager) (now : Time) (eligible : List String) (future : Option Request) :
    Work (Chosen Pending) := do
  if eligible.isEmpty then
    let outcome ← wait "no-enabled-corner"
    pure (.done outcome)
  else
    (if m.schedule_mode = .interval then
      update fun s => match s.last_slot_at, s.interval_seconds with
        | some last, some interval => { s with next_due_at := last + interval }
        | _, _ => s
    else update fun s => { s with next_due_at := now })
    let state ← get
    if m.schedule_mode = .interval ∧ now < state.next_due_at then
      let outcome ← wait "not-due"
      pure (.done outcome)
    else
      let candidates := autoCandidates m state eligible now (future.map Request.corner)
      let planned ← (if candidates.isEmpty then pure none else announced)
      match (planned.filter candidates.contains).or (pick m state candidates) with
      | none =>
        let outcome ← waitForCandidates m now eligible future
        pure (.done outcome)
      | some chosen =>
        let pending : Pending :=
          { corner := chosen, selected_at := now, request_id := .named state.seed state.slot chosen,
            phase := .selected, manual := false }
        update fun s => { s with pending := some pending, slot := s.slot + 1 }
        saveState
        pure (.go pending)

/-- The last row of every corner, in the order of the first ones. -/
def compact (history : List Use) : List Use :=
  history.foldl (fun latest row =>
    if latest.any (fun r => r.corner = row.corner) then
      latest.map fun r => if r.corner = row.corner ∧ r.at_ ≤ row.at_ then row else r
    else latest ++ [row]) []

/-- The start that the corner tells counts, not the time of the dispatch. -/
def noteStart (pending : Pending) (raws : List Observation) : Work Unit :=
  fold (fun _ (raw : Observation) => do
    match raw.started_at with
    | none => pure ()
    | some t =>
      let actual_start ← ofExcept (timestamp t)
      update fun s =>
        let last := max (s.last_slot_at.getD actual_start) actual_start
        { s with
          last_slot_at := some last
          next_due_at := match s.interval_seconds with
            | some interval => last + interval
            | none => s.next_due_at }) () (ownedBy pending.request_id raws)

def runSlot (m : Manager) (pending : Pending) (now : Time) : Work Outcome := do
  update fun s => { s with status := .running, reason := none }
  saveState
  let status ← execute pending.corner pending.toRequest
  let raws ← observations pending.corner
  noteStart pending raws
  if status = "completed" then
    let finished ← clock
    update fun s =>
      { s with
        history := compact (s.history ++ [{ corner := pending.corner, at_ := max now finished, source := .completion }])
        pending := none
        status := .ready
        last_result := some { corner := pending.corner, request_id := pending.request_id, status := status,
                              at_ := finished } }
    saveState
    pure { status := "ready", corner := some pending.corner, result := some status }
  else if status = "queued" ∨ status = "waiting" ∨ status = "already-running" then
    update fun s => { s with status := .waiting, reason := some "execution-pending" }
    saveState
    pure { status := "waiting", corner := some pending.corner, result := some status }
  else
    let reusable ← slotReusable m pending.corner pending.request_id
    let leftover ← (if reusable then leftoverCornerGame m pending.corner pending.request_id else pure false)
    if reusable && !leftover then
      let outcome ← releaseFailedCorner m pending .executionUnverified now false
      saveState
      pure outcome
    else throw { text := "execution requires recovery", kind := .executionUnverified }

/-- A selected request is marked as dispatched; then the slot runs. -/
def dispatch (m : Manager) (now : Time) (eligible manual_eligible : List String) (pending : Pending) :
    Work Outcome := do
  if !m.has pending.corner then throw { text := "pending corner removed from catalog", kind := .catalogMismatch }
  else
    let raws ← observations pending.corner
    let owned := !(ownedBy pending.request_id raws).isEmpty
    let allowed := (if pending.manual then manual_eligible else eligible).contains pending.corner
    if !allowed && (!owned || pending.phase = .selected) then wait "selected-corner-disabled-or-paused"
    else if pending.phase = .selected then
      let state ← get
      if !pending.manual && cooling m state.history now pending.corner then wait "selected-corner-cooling-down"
      else
        let dispatched := { pending with phase := .dispatched }
        update fun s =>
          { s with
            pending := some dispatched
            last_slot_at := some now
            next_due_at := match m.schedule_mode with
              | .interval => now + s.interval_seconds.getD 0
              | .queue => now
            history := s.history ++ [{ corner := pending.corner, at_ := now,
                                       source := if pending.manual then .manualReservation else .reservation }] }
        runSlot m dispatched now
    else runSlot m pending now

/-- What `tick` does once no manual reservation is left. -/
def tickSelect (m : Manager) (now : Time) (future : Option Request) (manual : Option Manual) : Work Outcome := do
  let found ← observe m now
  match manual with
  | some manual =>
    let raws ← (if m.has manual.corner then observations manual.corner else pure [])
    if (ownedBy manual.request_id raws).any fun raw => raw.status = .completed then
      let outcome ← resolveReservation m manual.reservation now
      saveState
      pure outcome
    else wait "manual-request-needs-resume-or-recovery"
  | none =>
    let selectable ← eligible m found.unretired false
    let manual_eligible ← eligible m found.unretired true
    update fun s =>
      { s with interval_seconds := if m.schedule_mode = .interval then targetInterval m selectable else none }
    if found.busy then wait "other-corner-needs-finish-or-recovery"
    else
      match ← takeQueued m now manual_eligible with
      | .done outcome => pure outcome
      | .go (some pending) => dispatch m now selectable manual_eligible pending
      | .go none =>
        match ← reserve m now selectable future with
        | .done outcome => pure outcome
        | .go pending => dispatch m now selectable manual_eligible pending

/-! ## Exceptions -/

/-- The reservation of a ledger, unless it has two. -/
def reservationOf (s : Ledger) : Option Reservation :=
  match s.pending, s.manual_pending with
  | some p, none => some p.reservation
  | none, some m => some m.reservation
  | _, _ => none

/-- Keep the reservation, for an operator. -/
def latch (reservation : Option Reservation) (kind : ErrorKind) (exc : Failure) (now : Time) : Work Outcome := do
  (match reservation with
    | some r => recordFailedCornerOnce r.corner (.request r.request_id) .recovery_required kind now none
    | none => pure ())
  update fun s =>
    { s with status := .recovery_required, reason := some "execution-or-state-unverified", error_kind := some kind }
  saveState
  throw exc

/-- Release a failed reservation when the slot proves to be free, else keep it. -/
def releaseOrLatch (m : Manager) (state : Ledger) (kind : ErrorKind) (exc : Failure) (now : Time) : Work Outcome := do
  match state.pending, state.manual_pending with
  | some p, none =>
    let reusable ← (if kind.ledger then pure false else slotReusable m p.corner p.request_id)
    let leftover ← (if reusable then leftoverCornerGame m p.corner p.request_id else pure true)
    if !leftover then
      let outcome ← releaseFailedCorner m p kind now false
      saveState
      pure outcome
    else latch (reservationOf state) kind exc now
  | _, _ => latch (reservationOf state) kind exc now

/-- The handler of `tick`. -/
def tickFailed (m : Manager) (now : Time) (exc : Failure) : Work Outcome := do
  let state ← get
  match reservationOf state with
  | none => releaseOrLatch m state exc.kind exc now
  | some r =>
    let verdict ← handle (do
        let outcome ← commitVerifiedFailedStart m r now
        pure (Except.ok outcome : Except Failure (Option Outcome)))
      fun e => pure (.error e)
    match verdict with
    | .ok (some outcome) =>
      saveState
      pure outcome
    | .ok none => releaseOrLatch m state exc.kind exc now
    | .error e => releaseOrLatch m state e.kind exc now

/-! ## Tick -/

/-- The slot was alive in this process just before a gap. -/
def heartbeatProvesParkedSlot (now : Time) : Work Bool := do
  let state ← get
  match state.status, state.pending with
  | .running, some p =>
    match ← heartbeat p.corner p.request_id with
    | some at_ => pure (decide (0 ≤ now - at_ ∧ now - at_ ≤ 180))
    | none => pure false
  | _, _ => pure false

/-- The parts of the `try` block, each with its handler: what a part raises is handled with the time it has. -/
def tickTry (m : Manager) (now : Time) (future : Option Request) : Work Outcome := do
  let stage ← handle (manualStage m now) fun exc => do
    let outcome ← tickFailed m now exc
    pure (.done outcome)
  match stage with
  | .done outcome => pure outcome
  | .settled manual settled_at =>
    handle (do
      let outcome ← resolveReservation m manual.reservation settled_at
      saveState
      pure outcome) (tickFailed m settled_at)
  | .go manual => handle (tickSelect m now future manual) (tickFailed m now)

def tickOpen (m : Manager) (now : Time) : Work Outcome := do
  let future ← importManualQueue now
  let state ← get
  if now < state.last_seen_at then wait "clock-regressed"
  else
    let parked ← (if DAY < now - state.last_seen_at then heartbeatProvesParkedSlot now else pure true)
    update fun s =>
      { s with last_seen_at := now, clock_hold_until := if parked then s.clock_hold_until else some (now + DAY) }
    let state ← get
    if state.clock_hold_until.any (now < ·) then wait "clock-gap-quarantine"
    else tickTry m now future

def tickLocked (m : Manager) : Work Outcome := do
  let now ← clock
  let state ← load m now
  rememberCatalog m
  if state.status = .recovery_required then
    let outcome ← autoReleaseLatch m now
    saveState
    match outcome with
    | some _ => tickOpen m now
    | none =>
      let state ← get
      pure { status := "recovery_required", reason := state.reason }
  else tickOpen m now

def tick (m : Manager) : Work Outcome := do
  if !(← rotationEnabled) then pure { status := "disabled" }
  else locking .rotation (tickLocked m) (pure { status := "waiting", reason := some "already-running" })

/-! ## Recover -/

/-- A refusal keeps the ledger as it was found, and what the latch was classified as. -/
def refuse (snapshot : Ledger) (exc : Failure) : Work Outcome := do
  save { snapshot with
    status := .recovery_required
    reason := some "execution-or-state-unverified"
    error_kind := some (snapshot.error_kind.getD exc.kind) }
  throw exc

def recoverReservation (m : Manager) (snapshot : Ledger) (r : Reservation) (now : Time) : Work Outcome := do
  if !m.has r.corner then throw { text := "pending corner removed from catalog", kind := .catalogMismatch }
  else
    let guard ← (if r.isManual then pure none else recoveryGuard r.corner r.request_id)
    match guard with
    | some (.error e) => throw e
    | _ =>
      let verified := guard = some (.ok true)
      let outcome ← handle (do
          let committed ← (if verified then pure none else commitVerifiedFailedStart m r now)
          match committed with
          | some outcome => pure outcome
          | none => resolveReservation m r now)
        fun exc => if verified then throw exc else refuse snapshot exc
      saveState
      pure outcome

def recoverLocked (m : Manager) : Work Outcome := do
  let now ← clock
  let snapshot ← load m now
  rememberCatalog m
  if snapshot.status ≠ .recovery_required then throw { text := "rotation state is not latched" }
  else if now < snapshot.last_seen_at then throw { text := "clock regressed" }
  else
    match snapshot.pending, snapshot.manual_pending with
    | some _, some _ => throw { text := "manual reservation is inconsistent with the automatic one" }
    | none, none =>
      update fun s => { s with last_seen_at := now, status := .waiting, reason := some "recovery-retry" }
      saveState
      pure { status := "waiting", reason := some "recovery-retry" }
    | some p, none => recoverReservation m snapshot p.reservation now
    | none, some manual => recoverReservation m snapshot manual.reservation now

def recover (m : Manager) : Work Outcome := do
  if !(← rotationEnabled) then pure { status := "disabled" }
  else locking .rotation (recoverLocked m) (pure { status := "waiting", reason := some "already-running" })

end Docich.Rotation
