import Docich.Rotation.Disk
import Mathlib.Data.List.Sort

/-!
# Observing corners and releasing the slot

- `load`: the ledger of a manager, or a fresh one;
- `slotReusable`, `leftoverCornerGame`: what the shared program slot proves about one request;
- `releaseFailedCorner`: settle a failed reservation without stopping the rotation;
- `observe`: import the usage of all corners; `eligible`: the corners that may be selected;
- `resolveReservation`, `commitVerifiedFailedStart`: commit a reservation from what its corner tells.
-/

namespace Docich.Rotation

open Durable.Locks.Work (throw get modify ofExcept handle fold)

/-- What `tick` and `recover` answer. -/
structure Outcome where
  status : String
  corner : Option String := none
  reason : Option String := none
  result : Option String := none
  recovered : Bool := false
  resumed : Bool := false
  deriving DecidableEq

/-! ## Loading -/

/-- A first ledger: earlier uses are taken over, and nobody's execution is forgotten. -/
def freshLedger (m : Manager) (now : Time) : Work Ledger := do
  let named ← fold (fun named (c : Corner) => do
    let raws ← observations c.id
    pure (named || raws.any fun raw => raw.rotation_request_id.isSome)) false m.catalog
  if named then throw { text := "rotation ledger missing; explicit recovery required" }
  else
    let seed ← token
    let known_corners ← legacyCorners
    let old ← legacy
    pure { seed := seed, slot := 0, last_seen_at := now, next_due_at := (old.2.map (max now)).getD now,
           history := old.1, known_corners := known_corners }

/-- `load`; what it returns becomes the ledger in memory. -/
def load (m : Manager) (now : Time) : Work Ledger := do
  match ← readLedger with
  | none =>
    let state ← freshLedger m now
    modify fun _ => state
    pure state
  | some state =>
    ofExcept state.checked
    modify fun _ => state
    pure state

/-- Corners of the catalog are known from now on; a corner that changed stays known under another key. -/
def rememberCorner (known : List Known) (c : Corner) : List Known :=
  let current : Known := { key := c.id, id := c.id, adapter := c.adapter, game := c.game }
  match known.find? fun k => k.key = c.id with
  | none => known ++ [current]
  | some previous =>
    let kept := known.map fun k => if k.key = c.id then current else k
    let retired := "retired:" ++ c.id ++ ":" ++ previous.game
    if (previous.adapter, previous.game) ≠ (c.adapter, c.game) ∧ ¬ known.any (fun k => k.key = retired) then
      kept ++ [{ previous with key := retired }]
    else kept

def rememberCatalog (m : Manager) : Work Unit :=
  update fun s => { s with known_corners := m.catalog.foldl rememberCorner s.known_corners }

def wait (reason : String) : Work Outcome := do
  update fun s => { s with status := .waiting, reason := some reason }
  saveState
  pure { status := "waiting", reason := some reason }

/-! ## Anomaly rows -/

def FAILED_CORNER_LIMIT : Nat := 16

def RELEASED_CORNER_LIMIT : Nat := 32

def RELEASED_REASON : String := "failed-corner-slot-released"

def lastRows {α : Type} (n : Nat) (rows : List α) : List α := rows.drop (rows.length - n)

def recordFailedCorner (corner : String) (request_id : Subject) (resolution : Resolution) (error_kind : ErrorKind)
    (now : Time) (reason_code : Option String) : Work Unit :=
  update fun s =>
    let row : FailedCorner :=
      { corner := corner, request_id := request_id, at_ := now, resolution := resolution,
        reason_code := reason_code.getD
          (if resolution = .released_unverified then RELEASED_REASON else "execution-or-state-unverified"),
        error_kind := error_kind }
    { s with failed_corners := lastRows FAILED_CORNER_LIMIT (s.failed_corners ++ [row]) }

/-- Record the anomaly only once per request. -/
def recordFailedCornerOnce (corner : String) (request_id : Subject) (resolution : Resolution) (error_kind : ErrorKind)
    (now : Time) (reason_code : Option String) : Work Unit := do
  let state ← get
  if state.failed_corners.any fun row => row.request_id = request_id then pure ()
  else recordFailedCorner corner request_id resolution error_kind now reason_code

/-! ## The shared slot -/

/-- The first of its rows that says how the run of the request ended decides. -/
def finished (request_id : RequestId) : List Observation → Bool
  | [] => false
  | raw :: raws =>
    if raw.rotation_request_id ≠ some request_id then finished request_id raws
    else if raw.status.terminal then true
    else if raw.status = .failed then raw.started_at.isSome
    else finished request_id raws

def finishedOwner (corner : String) (request_id : RequestId) : Work Bool := do
  match ← tryObservations corner with
  | .ok raws => pure (finished request_id raws)
  | .error _ => pure false

/-- The plane is held by this corner's own, already ended run. -/
def leftoverCornerGame (m : Manager) (corner : String) (request_id : RequestId) : Work Bool := do
  match m.adapter? corner with
  | none => pure false
  | some c =>
    match ← plane corner request_id c.game with
    | none => pure false
    | some canonical =>
      if canonical.active.map ActiveRuntime.game = some c.game then finishedOwner corner request_id else pure false

/-- Canonical is settled on a stable runtime, and nothing is in flight. -/
def Plane.settled (p : Plane) : Bool :=
  p.phase ≠ .other && !p.operation && !p.request_id && !p.deadline_at && !p.candidate && !p.previous && !p.retiring &&
    p.active.any fun a => a.game ≠ "" && a.runtime_id ≠ "" && a.lease_id ≠ "" && 1 ≤ a.generation

/-- The receipt of the request is terminal or absent, and no queued row carries it. -/
def Plane.clear (p : Plane) (request_id : RequestId) : Bool :=
  p.receipt_terminal ≠ some false && !p.queued.contains request_id

def slotReusable (m : Manager) (corner : String) (request_id : RequestId) : Work Bool := do
  match m.adapter? corner with
  | none => pure false
  | some c =>
    match ← plane corner request_id c.game with
    | none => pure false
    | some canonical =>
      if !canonical.settled then pure false
      else
        let held := canonical.active.map ActiveRuntime.game = some c.game
        let reclaimable ← (if held then finishedOwner corner request_id else pure true)
        if !reclaimable then pure false
        else if !canonical.clear request_id then pure false
        else
          match ← tryResourcesReleased corner with
          | .ok released => pure (released.getD true)
          | .error _ => pure false

/-! ## Releasing a failed corner -/

/-- The released request of a corner, in place of an earlier one; the oldest rows go when there are too many. -/
def markReleased (allowed : String → Bool) (rows : List Released) (new : Released) : List Released :=
  let kept := rows.filter fun r => allowed r.corner
  let marked :=
    if kept.any (fun r => r.corner = new.corner) then kept.map fun r => if r.corner = new.corner then new else r
    else kept ++ [new]
  let oldest := (marked.mergeSort fun a b => a.at_ ≤ b.at_).take (marked.length - RELEASED_CORNER_LIMIT)
  marked.filter fun r => !oldest.contains r

def markReleasedRequest (m : Manager) (corner : String) (request_id : RequestId) (now : Time) : Work Unit :=
  update fun s =>
    let allowed := fun c => m.has c || s.known_corners.any fun k => k.key = c
    { s with released_requests := markReleased allowed s.released_requests ⟨corner, request_id, now⟩ }

def releaseFailedCorner (m : Manager) (reservation : Pending) (error_kind : ErrorKind) (now : Time)
    (base_unrestored : Bool) : Work Outcome := do
  recordFailedCorner reservation.corner (.request reservation.request_id) .released_unverified error_kind now
    (if base_unrestored then some "base-game-unrestored" else none)
  markReleasedRequest m reservation.corner reservation.request_id now
  let _ ← settleReleasedFailure reservation.corner reservation.request_id
  releaseProgramOwner reservation.corner
  update fun s =>
    { s with
      history := s.history ++ [{ corner := reservation.corner, at_ := now, source := .failure }]
      pending := none
      last_seen_at := now
      status := .waiting
      reason := some RELEASED_REASON
      last_result := some { corner := reservation.corner, request_id := reservation.request_id, status := "unverified",
                            at_ := now } }
  pure { status := "waiting", corner := some reservation.corner, reason := some RELEASED_REASON,
         result := some "unverified" }

/-! ## Observing corners -/

/-- The keys of the corners to look at, with the name their uses have: the catalog, then what was removed from it. -/
def observers (m : Manager) (s : Ledger) : List (String × String) :=
  m.catalog.map (fun c => (c.id, c.id)) ++
    (s.known_corners.filter fun k => !m.has k.key).map fun k => (k.key, k.id)

/-- Some record says that this failed request was released. -/
def auditedRelease (s : Ledger) (corner : String) (request_id : RequestId) (raw : Observation) : Bool :=
  s.released_requests.any (fun r => r.corner = corner && r.request_id = request_id) ||
    s.failed_corners.any (fun row => row.corner = corner && row.request_id = .request request_id &&
      row.resolution = .released_unverified) ||
    raw.released_settle_pending = some (request_id, corner)

/-- What `_observe` has found so far: whether the slot is busy, and whose state files keep a released owner. -/
structure Found where
  busy : Bool := false
  unretired : List String := []

/-- A busy row of another request blocks, unless its failure was released and the slot still proves it. -/
def observeBusy (m : Manager) (corner : String) (raw : Observation) (found : Found) : Work Found := do
  let state ← get
  match raw.rotation_request_id with
  | none => pure { found with busy := true }
  | some request_id =>
    if auditedRelease state corner request_id raw then
      let reusable ← slotReusable m corner request_id
      if reusable then
        let outcome ← settleReleasedFailure corner request_id
        if outcome.isSome then
          releaseProgramOwner corner
          if outcome ≠ some true && m.has corner then
            pure { found with unretired := corner :: found.unretired }
          else pure found
        else if m.has corner then pure { found with unretired := corner :: found.unretired }
        else pure found
      else pure { found with busy := true }
    else pure { found with busy := true }

/-- The times of a row, in the order they are read. -/
def stamps (raw : Observation) : Except Failure (List Time) :=
  (raw.started_at.toList ++ raw.completed_at.toList).mapM timestamp

def lastUse (history : List Use) (corner : String) : Time :=
  ((history.filter fun r => r.corner = corner).map Use.at_).foldl max (-1)

/-- A use that the history does not know yet is added to it, not later than now. -/
def importUse (history_id : String) (now : Time) (times : List Time) : Work Unit :=
  update fun s =>
    match times.max? with
    | none => s
    | some latest =>
      if lastUse s.history history_id < min latest now then
        { s with history := s.history ++ [{ corner := history_id, at_ := min latest now, source := .execution }] }
      else s

def observeRow (m : Manager) (pending : Option Pending) (now : Time) (key : String × String) (found : Found)
    (raw : Observation) : Work Found := do
  if raw.status = .unknown then throw { text := "unknown adapter state", kind := .adapterState }
  else
    let absent ← (if raw.status = .active then terminalOwnerAbsent key.1 else pure none)
    (match absent with
      | none => pure ()
      | some name =>
        recordFailedCornerOnce key.1 ((raw.rotation_request_id.map Subject.request).getD (.other name))
          .recovery_required .executionUnverified now (some "terminal-owner-absent"))
    let own := pending.any fun p => raw.rotation_request_id = some p.request_id
    let found ← (if raw.status.busy && !own then observeBusy m key.1 raw found else pure found)
    let times ← ofExcept (stamps raw)
    importUse key.2 now times
    pure found

def observeCorner (m : Manager) (pending : Option Pending) (now : Time) (found : Found) (key : String × String) :
    Work Found := do
  let reconciled ← reconcileTerminalFailures key.1
  let released ← resourcesReleased key.1
  let busy := found.busy || reconciled = some false || released = some false
  let raws ← observations key.1
  fold (observeRow m pending now key) { found with busy := busy } raws

/-- Import manual usage; unknown or orphaned execution blocks selection. -/
def observe (m : Manager) (now : Time) : Work Found := do
  let state ← get
  fold (observeCorner m state.pending now) {} (observers m state)

/-- This corner's shared state file holds an owner that is not retired. -/
def statePathBlocked (unretired : List String) (corner : String) : Work Bool :=
  fold (fun blocked other => do
    let shared ← sharesStateFile corner other
    pure (blocked || shared)) false unretired

/-- The corners that may be selected, in the order of their names. -/
def eligible (m : Manager) (unretired : List String) (include_manual_only : Bool) : Work (List String) :=
  fold (fun result (c : Corner) => do
    if !c.enabled || c.paused then pure result
    else
      let paused ← pausedFile c.id
      if paused then pure result
      else
        let blocked ← statePathBlocked unretired c.id
        if blocked then pure result
        else if c.manual_only && !include_manual_only then pure result
        else
          let available ← adapterEligible c.id
          pure (if available then result ++ [c.id] else result))
    [] (m.catalog.mergeSort fun a b => a.id ≤ b.id)

/-! ## Committing a reservation -/

/-- A reservation, automatic or manual. -/
structure Reservation where
  corner : String
  request_id : RequestId
  /-- The state file of a manual reservation. -/
  state_file : Option String := none

def Reservation.isManual (r : Reservation) : Bool := r.state_file.isSome

def Pending.reservation (p : Pending) : Reservation := { corner := p.corner, request_id := p.request_id }

def Manual.reservation (m : Manual) : Reservation :=
  { corner := m.corner, request_id := m.request_id, state_file := some m.state_file }

def latestRow (raws : List Observation) : Except Failure (Option Observation) := do
  let stamped ← raws.mapM fun raw => do
    let times ← stamps raw
    pure ((times.max?).getD (-1), raw)
  pure ((stamped.foldl (fun best row => match best with
    | none => some row
    | some b => if b.1 < row.1 then some row else some b) none).map Prod.snd)

/-- Commit the terminal result `raw` of the reservation. -/
def commitReservation (r : Reservation) (raw : Observation) (now : Time) : Work Outcome := do
  let completed ← ofExcept (match raw.completed_at with
    | some t => timestamp t
    | none => .ok now)
  let done := min completed now
  let started ← ofExcept (match raw.started_at with
    | some t => (timestamp t).map some
    | none => .ok none)
  update fun s =>
    match started with
    | some stamp => { s with last_slot_at := some (max (max (s.last_slot_at.getD stamp) stamp) done) }
    | none => s
  update fun s =>
    if r.isManual then
      { s with
        manual_pending := none
        history := if raw.status = .completed then
            s.history ++ [{ corner := r.corner, at_ := max now done, source := .manualCompletion }]
          else s.history }
    else
      { s with
        pending := none
        history := s.history ++ [{ corner := r.corner, at_ := max now done, source := .completion }] }
  let observed := match raw.status with
    | .completed => "completed"
    | .interrupted => "interrupted"
    | .expired => "expired"
    | _ => "idle"
  update fun s =>
    { s with
      last_seen_at := now
      status := .ready
      reason := none
      last_result := some { corner := r.corner, request_id := r.request_id, status := observed, at_ := done } }
  pure { status := "ready", corner := some r.corner, result := some observed, recovered := true }

/-- Nobody has seen the request: a manual one waits for its operator, another goes back to the timer. -/
def handBack (m : Manager) (r : Reservation) (now : Time) : Work Outcome := do
  if r.isManual then
    update fun s =>
      { s with last_seen_at := now, status := .waiting, reason := some "manual-request-needs-resume-or-recovery" }
    pure { status := "waiting", corner := some r.corner, reason := some "manual-request-needs-resume-or-recovery" }
  else
    let found ← observe m now
    if found.busy then
      update fun s =>
        { s with last_seen_at := now, status := .waiting, reason := some "other-corner-needs-finish-or-recovery" }
      pure { status := "waiting", reason := some "other-corner-needs-finish-or-recovery" }
    else
      update fun s => { s with last_seen_at := now, status := .waiting, reason := some "execution-pending" }
      pure { status := "waiting", corner := some r.corner, reason := some "execution-pending", resumed := true }

def resolveReservation (m : Manager) (r : Reservation) (now : Time) : Work Outcome := do
  if !m.has r.corner then throw { text := "unknown corner", kind := .unexpected }
  else
    let raws ← observations r.corner
    let owned := ownedBy r.request_id raws
    if owned.any fun raw => raw.status.busy then
      throw { text := "pending execution needs corner-level recovery", kind := .executionUnverified }
    else
      match ← ofExcept (latestRow owned) with
      | none => handBack m r now
      | some raw =>
        if !raw.status.terminal then throw { text := "unknown adapter state", kind := .adapterState }
        else commitReservation r raw now

/-- Prove a failed start rolled back before its reservation is terminalized. -/
def reconcileFailedStart (r : Reservation) (now : Time) : Work (Option Time) := do
  match ← adapterReconcileFailedStart r.corner r.request_id r.state_file with
  | some true =>
    let seen ← clock
    if min seen now < now then throw { text := "clock regressed" }
    else
      match ← resourcesReleased r.corner with
      | some false => throw { text := "pending corner resources are not released", kind := .executionUnverified }
      | _ => pure (some (min seen now))
  | _ => pure none

def commitVerifiedFailedStart (m : Manager) (r : Reservation) (now : Time) : Work (Option Outcome) := do
  if !m.has r.corner then pure none
  else
    match ← reconcileFailedStart r now with
    | none => pure none
    | some settled_at =>
      update fun s => { s with last_seen_at := settled_at }
      let outcome ← resolveReservation m r settled_at
      pure (some outcome)

end Docich.Rotation
