import Docich.GameSwitch.Time
import Docich.Plain
import Docich.Rotation.Tick

/-!
# The advance notice for the next corner

- `Notice`: the record that `next_corner.json` stores, `readNotice` and `publishNotice`;
- `plannedNotice`, `drawnNotice`, `nextCornerNotice`: the corner that is announced, and when it is due;
- `syncNotice`: publish the notice or take it back;
- `Moment`, `minute`: what surrounds one tick, and the tick of a ledger without a reservation, up to the reservation
  of a corner;
- `firstStart`: the first reservation of a run of ticks.

The notice is drawn by `drawnNotice`, a reservation is drawn by `reserve`; nothing but the ledger and the file connects
them. The spoken line is left out.
-/

namespace Docich.Rotation

open GameSwitch (Date digit digits)

/-! ## The record -/

inductive NoticeSource
  | auto
  | manual
  deriving DecidableEq

inductive Hold
  | prediction
  deriving DecidableEq

structure Notice where
  corner : String
  label : String
  due_at : ℤ
  when_ : String
  source : NoticeSource
  hold : Option Hold
  decided_at : ℤ
  updated_at : Time
  deriving DecidableEq

def MIN_LEAD_SECONDS : Time := 120
def REFRESH_SECONDS : Time := 60
def MAX_AGE_SECONDS : Time := 600
def LABEL_LIMIT : Nat := 28
def WHEN_LIMIT : Nat := 16

def CORNER_LABELS : List (String × String) :=
  [("ninvaders", "スペースインベーダー"), ("nsnake", "スネーク"), ("bastet", "バステト"), ("moon-buggy", "ムーンバギー"),
   ("pacman4console", "パックマン"), ("nethack", "NetHack"), ("hanjuku-hero", "半熟英雄"), ("paper", "ペーパートレード"),
   ("meriken", "ソ連ゲーム91"), ("tsuitate", "ついたて将棋"), ("weather", "天気予報"), ("yosou-oh", "予想王"),
   ("doushi-card", "同志カード大賞"), ("puyo-corner", "ぷよぷよ"), ("trpg-corner", "TRPG"),
   ("mystery", "AI探偵ミステリー"), ("communist-law-simulator", "共産主義法律シミュレーター")]

/-- `text[:limit]`. -/
def cut (limit : Nat) (text : String) : String := String.ofList (text.toList.take limit)

def cornerLabel (corner_id : String) : String := cut LABEL_LIMIT ((CORNER_LABELS.lookup corner_id).getD corner_id)

/-- A text with a control character reads as an empty one. -/
def cleanText (text : String) (limit : Nat) : String :=
  if text.toList.any fun ch => decide (ch.toNat < 32) then "" else cut limit text

/-- `GAME_NAME_PATTERN`, which `load_catalog` asks of the name of a corner. -/
def validGameName (name : String) : Bool :=
  match name.toList with
  | [] => false
  | ch :: rest => (ch.isLower || ch.isDigit) && rest.all (fun ch => ch.isLower || ch.isDigit || ch = '_' || ch = '-') &&
      decide (rest.length ≤ 63)

/-- The record, where it is valid. -/
def Notice.read (n : Notice) : Option Notice :=
  if n.corner = "" ∨ cleanText n.label LABEL_LIMIT = "" ∨ cleanText n.when_ WHEN_LIMIT = "" then none
  else some { n with
    corner := cut 64 n.corner
    label := cleanText n.label LABEL_LIMIT
    when_ := cleanText n.when_ WHEN_LIMIT }

/-- The published record; a missing file and one that is no record read alike. -/
def readNotice (file : Option Notice) : Option Notice := file.bind Notice.read

/-! ## Clock texts -/

/-- The microsecond that `fromtimestamp` rounds to: the nearest one, and an even one between two. -/
def micros (t : Time) : ℤ :=
  let low := ⌊t * 1000000⌋
  let rest := t * 1000000 - low
  if rest < 1 / 2 then low else if 1 / 2 < rest then low + 1 else if low % 2 = 0 then low else low + 1

/-- Seconds in `DISPLAY_TZ`, nine hours ahead. -/
def displaySeconds (t : Time) : Nat := (micros t / 1000000 + 32400).toNat

/-- `%H:%M`. -/
def clockText (s : Nat) : List Char := digits 2 (s % 86400 / 3600) ++ ':' :: digits 2 (s % 3600 / 60)

/-- A month or a day, without a leading zero. -/
def plainDigits (n : Nat) : List Char := if n < 10 then digits 1 n else digits 2 n

def formatWhen (due_at now : Time) : String :=
  let due := displaySeconds due_at
  let current := displaySeconds now
  String.ofList
    (if due / 86400 = current / 86400 then clockText due
    else if due / 86400 = current / 86400 + 1 then ['明', '日', ' '] ++ clockText due
    else plainDigits (Date.ofDays (due / 86400)).month ++ '/' :: plainDigits (Date.ofDays (due / 86400)).day ++
      ' ' :: clockText due)

/-! ## Publishing -/

/-- How a write ends: it may raise before the file is replaced, or after. -/
inductive Write
  | done
  | before
  | after

/-- What surrounds one tick. -/
structure Moment where
  now : Time
  eligible : List String
  manual_eligible : List String
  /-- What `_import_manual_queue` leaves in the inbox: a request that is not due. -/
  future_manual : Option Request
  busy : Bool
  sorengame_on_air : Bool
  prediction_hold : Bool
  heartbeat_proves_parked_slot : Bool
  /-- Whether the file of the notice can be removed. -/
  unlinks : Bool
  write : Write

def Moment.clear (x : Moment) (file : Option Notice) : Option Notice := if x.unlinks then none else file

structure Decision where
  corner : String
  due_at : Time
  source : NoticeSource
  deriving DecidableEq

/-- The record of a decision; a decision that did not change keeps its time. -/
def Moment.record (x : Moment) (file : Option Notice) (d : Decision) : Notice :=
  { corner := cut 64 d.corner
    label := cornerLabel d.corner
    due_at := ⌊d.due_at⌋
    when_ := formatWhen d.due_at x.now
    source := d.source
    hold := if x.prediction_hold then some .prediction else none
    decided_at := match (readNotice file).filter fun e =>
        e.corner = cut 64 d.corner ∧ e.due_at = ⌊d.due_at⌋ ∧ e.source = d.source with
      | some existing => existing.decided_at
      | none => ⌊x.now⌋
    updated_at := ⌊x.now⌋ }

/-- The record that `publish` returns, and the file after it. -/
def publishNotice (x : Moment) (file : Option Notice) (d : Decision) : Option Notice × Option Notice :=
  let record := x.record file d
  match (readNotice file).filter fun e =>
      { e with updated_at := record.updated_at } = record ∧ x.now - e.updated_at < REFRESH_SECONDS with
  | some existing => (some existing, file)
  | none => match x.write with
    | .done => (some record, some record)
    | .before => (none, file)
    | .after => (none, some record)

/-! ## Deciding -/

/-- The announced corner, while its record is refreshed and it is still a candidate. -/
def plannedNotice (m : Manager) (s : Ledger) (file : Option Notice) (now : Time) (eligible : List String) :
    Except Failure (Option Decision) :=
  match readNotice file with
  | none => .ok none
  | some current =>
    if current.source ≠ .auto then .ok none
    else if MAX_AGE_SECONDS < now - current.updated_at then .ok none
    else do
      let due_at ← timestamp current.due_at
      if (autoCandidates m s eligible (max due_at now) none).contains current.corner then
        .ok (some ⟨current.corner, due_at, .auto⟩)
      else .ok none

/-- The time from which the cadence lets a corner start. -/
def anchor (m : Manager) (s : Ledger) (eligible : List String) : Time :=
  match s.last_slot_at with
  | some last => last + (targetInterval m eligible).getD 0
  | none => s.next_due_at

/-- A corner drawn afresh: at the anchor, or at the first end of a cooldown. -/
def drawn (m : Manager) (s : Ledger) (now : Time) (eligible : List String) : Option Decision :=
  let decide_at (due_at at_ : Time) : Option Decision :=
    (pick m s (autoCandidates m s eligible at_ none)).map fun c => ⟨c, due_at, .auto⟩
  let due_at := anchor m s eligible
  if autoCandidates m s eligible (max due_at now) none = [] then
    (cooldownDueAt m s.history eligible now).bind fun due_at => decide_at due_at due_at
  else decide_at due_at (max due_at now)

def drawnNotice (m : Manager) (s : Ledger) (now : Time) (eligible : List String) : Except Failure (Option Decision) := do
  let _ ← timestamp s.next_due_at
  let _ ← timestamp (s.last_slot_at.getD 0)
  .ok (drawn m s now eligible)

/-- What `_next_corner_notice` makes of the manual request and of the corner of the rotation. -/
def earlier (manual auto : Option Decision) : Option Decision :=
  match manual with
  | some manual => if auto.all (manual.due_at ≤ ·.due_at) then some manual else auto
  | none => auto

def manualNotice (s : Ledger) (future : Option Request) : Except Failure (Option Decision) :=
  match future.or s.queued_manual with
  | some queued => match queued.trigger_at with
    | some t => (timestamp t).map fun due_at => some ⟨queued.corner, due_at, .manual⟩
    | none => .ok none
  | none => .ok none

def nextCornerNotice (m : Manager) (s : Ledger) (file : Option Notice) (now : Time) (eligible : List String)
    (future : Option Request) : Except Failure (Option Decision) := do
  let manual ← manualNotice s future
  let auto ← (if m.schedule_mode = .interval ∧ eligible ≠ [] then do
      match ← plannedNotice m s file now eligible with
      | some d => .ok (some d)
      | none => drawnNotice m s now eligible
    else .ok none)
  .ok (earlier manual auto)

/-- The record that `_sync_notice` returns, and the file after it. -/
def syncNotice (m : Manager) (x : Moment) (s : Ledger) (file : Option Notice) : Option Notice × Option Notice :=
  if s.pending.isSome ∨ s.manual_pending.isSome then (none, x.clear file)
  else if !x.sorengame_on_air then (none, x.clear file)
  else match nextCornerNotice m s file x.now x.eligible x.future_manual with
    | .error _ => (none, file)
    | .ok none => (none, x.clear file)
    | .ok (some d) => match timestamp d.due_at with
      | .error _ => (none, file)
      | .ok due_at =>
        if due_at - x.now < MIN_LEAD_SECONDS ∧ (readNotice file).all (·.corner ≠ d.corner) then (none, x.clear file)
        else publishNotice x file d

/-! ## Ticks -/

/-- What `tick` selects once nothing is busy. -/
def selectNext (m : Manager) (x : Moment) : Work (Chosen Pending) := do
  match ← takeQueued m x.now x.manual_eligible with
  | .done outcome => pure (.done outcome)
  | .go (some pending) => pure (.go pending)
  | .go none => reserve m x.now x.eligible x.future_manual

def plannedCorner (file : Option Notice) : Option String :=
  ((readNotice file).filter fun n => n.source = .auto).map Notice.corner

/-- The answers to a selection: the announced corner, and writes that succeed. -/
def boardAnswers (file : Option Notice) : (q : Ask) → q.Answer
  | .clock => 0
  | .rotation_enabled => .ok true
  | .token => ""
  | .uuid4 => .random 0
  | .legacy => .ok ([], none)
  | .legacy_corners => .ok []
  | .load => .ok none
  | .save _ => .ok ()
  | .read_queue => .ok none
  | .write_queue _ => .ok ()
  | .unlink_queue _ => .ok ()
  | .observations _ => .ok []
  | .reconcile_terminal_failures _ => .ok none
  | .resources_released _ => .ok none
  | .reconcile_failed_start _ _ _ => .ok none
  | .settle_released_failure _ _ => none
  | .release_program_owner _ => ()
  | .restore_runner _ => false
  | .recover_failed_restore _ => ()
  | .recovery_guard _ _ => none
  | .plane _ _ _ => none
  | .terminal_owner_absent _ => none
  | .shares_state_file _ _ => false
  | .paused_file _ => false
  | .eligible _ => false
  | .run_rotation_file _ => none
  | .expired_capture_unowned _ _ => false
  | .heartbeat _ _ => none
  | .announced => plannedCorner file
  | .execute _ _ => .ok ""
  | .recover_prepared _ => .ok none
  | .prepare _ => .ok ()
  | .publish _ => .ok ()

/-- What the selection makes of a ledger and a notice file. -/
def chosen (m : Manager) (x : Moment) (file : Option Notice) (s : Ledger) :
    Except (Ledger × Failure) (Ledger × Chosen Pending) := (selectNext m x).answered (boardAnswers file) s

/-- The ledger and the notice file. -/
structure Board where
  ledger : Ledger
  notice : Option Notice

/-- The ledger as a tick finds it when it comes to the notice, where it comes so far. -/
def Moment.opened (x : Moment) (m : Manager) (s : Ledger) : Option Ledger :=
  if x.now < s.last_seen_at then none
  else
    let hold :=
      if DAY < x.now - s.last_seen_at ∧ !x.heartbeat_proves_parked_slot then some (x.now + DAY) else s.clock_hold_until
    if hold.any (x.now < ·) then none
    else some { s with
      last_seen_at := x.now
      clock_hold_until := hold
      interval_seconds := if m.schedule_mode = .interval then targetInterval m x.eligible else none }

/-- The ledger of a tick that stops at the clock. -/
def Moment.shut (x : Moment) (s : Ledger) : Ledger :=
  if x.now < s.last_seen_at then { s with status := .waiting, reason := some "clock-regressed" }
  else { s with
    last_seen_at := x.now
    clock_hold_until :=
      if DAY < x.now - s.last_seen_at ∧ !x.heartbeat_proves_parked_slot then some (x.now + DAY) else s.clock_hold_until
    status := .waiting
    reason := some "clock-gap-quarantine" }

/-- A tick of a ledger without a reservation, up to the request it starts a corner for. -/
def minute (m : Manager) (x : Moment) (b : Board) : Board × Option Pending :=
  -- The latch stays: without a reservation there is nothing to release.
  if b.ledger.status = .recovery_required then (⟨b.ledger, x.clear b.notice⟩, none)
  else match x.opened m b.ledger with
  | none => (⟨x.shut b.ledger, x.clear b.notice⟩, none)
  | some s =>
    let file := (syncNotice m x s b.notice).2
    if x.busy then
      (⟨{ s with status := .waiting, reason := some "other-corner-needs-finish-or-recovery" }, file⟩, none)
    else match chosen m x file s with
      | .error (s, exc) =>
        (⟨{ s with status := .recovery_required, reason := some "execution-or-state-unverified",
                   error_kind := some exc.kind }, file⟩, none)
      | .ok (s, .done _) => (⟨s, file⟩, none)
      | .ok (s, .go p) =>
        -- The cooldown is checked again before the corner starts.
        if !p.manual && cooling m s.history x.now p.corner then
          (⟨{ s with status := .waiting, reason := some "selected-corner-cooling-down" }, x.clear file⟩, none)
        else (⟨s, x.clear file⟩, some p)

/-- The first request that a run of ticks starts a corner for, with its tick. -/
def firstStart (m : Manager) : List Moment → Board → Option (Moment × Pending)
  | [], _ => none
  | x :: xs, b => match minute m x b with
    | (_, some p) => some (x, p)
    | (b, none) => firstStart m xs b

end Docich.Rotation
