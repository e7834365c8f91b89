import Docich.Trpg.Core
import Docich.Wire.Lines
import Docich.Wire.Utf8

/-!
# A TRPG session and its chat file

- `cursor_at_end`, `parse_chat`, `consume`: the reader of the chat;
- `tick`: one call of the manager;
- `World`: the session, its chat file and the clock.

The chat file may grow before each access of a call. The windows that were closed, with the messages that were applied while
they were open, are read by no function.
-/

namespace Docich.Trpg

open MoveGate (Text Value text get stringOf)

def READ_BYTES : ℕ := 64 * 1024
def MAX_LINES : ℕ := 128

def newline : ℕ := 10

/-! ## The chat file -/

structure File where
  inode : ℕ
  bytes : List ℕ

structure Cursor where
  inode : Option ℕ
  offset : ℕ
  discard : Bool

/-- Whether the last line of the file has no end yet. -/
def File.unfinished (f : File) : Bool := f.bytes.getLast?.any (· ≠ newline)

def cursor_at_end : Option File → Cursor
  | some f => ⟨some f.inode, f.bytes.length, f.unfinished⟩
  | none => ⟨none, 0, false⟩

structure Reader where
  unicode : Unicode
  loads : Text → Option Value

/-- `split(sep, n)` -/
def splitAtMost (sep : ℕ) : ℕ → Text → List Text
  | 0, t => [t]
  | n + 1, t => if sep ∈ t then t.takeWhile (· ≠ sep) :: splitAtMost sep n (t.dropWhile (· ≠ sep)).tail else [t]

/-- What stands after the first colon with a space. -/
def afterColon : Text → Option Text
  | a :: b :: rest => if a = ':'.toNat ∧ b = ' '.toNat then some rest else afterColon (b :: rest)
  | _ => none

def userKey : Text := text ['u', 's', 'e', 'r', '_', 'i', 'd']
def textKey : Text := text ['t', 'e', 'x', 't']
def userField : Text := text ['u', 's', 'e', 'r', '-', 'i', 'd', '=']
def flagsField : Text := text ['f', 'l', 'a', 'g', 's', '=']
def selfFlag : Text := text ['s', 'e', 'l', 'f']

/-- `isascii() and isdecimal()` -/
def isNumber (t : Text) : Bool := t ≠ [] && t.all fun c => 48 ≤ c && c ≤ 57

/-- `removeprefix` -/
def withoutStart (start t : Text) : Text := if start.isPrefixOf t then t.drop start.length else t

abbrev Message := Text × Text

def parse_chat (loads : Text → Option Value) (line : Text) : Option Message := do
  guard (line.length ≤ 4096)
  let (uid, message) ←
    if line.head? = some '\x7b'.toNat then
      match loads line with
      | some (.object row) => some (stringOf (get row userKey), stringOf (get row textKey))
      | _ => none
    else
      match splitAtMost '\t'.toNat 5 line with
      | [_, user, _, _, flags, rest] =>
        if ¬ userField.isPrefixOf user then none
        else
          let uid := user.drop 8
          if ¬ isNumber uid ∨ selfFlag ∈ Wire.Lines.split ','.toNat (withoutStart flagsField flags) then none
          else (afterColon rest).map fun message => (some uid, some message)
      | _ => none
  let uid ← uid
  let message ← message
  if uid.length < 1 ∨ MAX_USER_ID < uid.length ∨ 1024 < message.length then none
  else some (uid, message)

def messageOf (r : Reader) (line : List ℕ) : Option Message := parse_chat r.loads (Wire.Utf8.decodeReplace line)

structure Consumed where
  cursor : Cursor
  state : State
  messages : List Message
  drained : Bool

/-- The rest of `consume`: up to the limit, from where the cursor is. -/
def readFrom (r : Reader) (bytes : List ℕ) (cursor : Cursor) (state : State) (limit : ℕ) (closing : Bool) : Consumed :=
  let raw := (bytes.drop cursor.offset).take (min READ_BYTES (limit - cursor.offset))
  let read_end := cursor.offset + raw.length
  if cursor.discard then
    match raw.idxOf? newline with
    | none => ⟨{ cursor with offset := read_end }, state, [], limit ≤ read_end⟩
    | some i => ⟨{ cursor with offset := cursor.offset + (i + 1), discard := false }, state, [], limit ≤ cursor.offset + (i + 1)⟩
  else
    let lines := (Wire.Lines.complete newline raw).take MAX_LINES
    if lines = [] ∧ raw.length = READ_BYTES then ⟨{ cursor with offset := read_end, discard := true }, state, [], limit ≤ read_end⟩
    else
      let messages := lines.filterMap (messageOf r)
      let state := messages.foldl (fun state m => observe_chat r.unicode state m.1 m.2) state
      let read := cursor.offset + (Wire.Lines.join newline lines).length
      let offset := if closing ∧ read_end = limit ∧ lines.length < MAX_LINES then limit else read
      ⟨{ cursor with offset := offset }, state, messages, limit ≤ offset⟩

def consume (r : Reader) (file : Option File) (cursor : Cursor) (state : State) (through : Option Cursor) : Consumed :=
  match file with
  | none => ⟨cursor, state, [], true⟩
  | some f =>
    if cursor.inode.any fun inode => inode ≠ f.inode || f.bytes.length < cursor.offset then
      ⟨cursor_at_end (some f), state, [], true⟩
    else
      let cursor := if cursor.inode = none then ⟨some f.inode, 0, false⟩ else cursor
      match through with
      | none => readFrom r f.bytes cursor state f.bytes.length false
      | some closing =>
        if closing.inode ≠ some f.inode then ⟨cursor, state, [], true⟩
        else readFrom r f.bytes cursor state closing.offset true

/-! ## Ticks -/

structure Window where
  opened : Cursor
  closing : Option Cursor
  applied : List Message

structure Data where
  scenario : Scenario
  state : State
  phase_at : ℚ
  cursor : Cursor
  closing : Option Cursor

structure World where
  file : Option File
  clock : ℚ
  data : Data
  opened : Cursor
  applied : List Message
  windows : List Window

inductive StopReason
  | duration
  | manual

/-- A call: how much later it comes, whether it stops the session, and how the file grows before each access. -/
structure Tick where
  elapsed : ℚ≥0
  stop_reason : Option StopReason
  growth : Option (List ℕ) × Option (List ℕ) × Option (List ℕ)

/-- The file is made, or more is appended to it. -/
def grow (inode : ℕ) (file : Option File) (more : Option (List ℕ)) : Option File :=
  match more with
  | none => file
  | some more => some ⟨inode, (file.elim [] File.bytes) ++ more⟩

def HOLD_SECONDS : Phase → ℕ
  | .scene => 3
  | .resolve => 3
  | .reveal => 10
  | _ => 0

def TERMINAL : List Phase := [.end, .failed, .timeout]

/-- Phases in which the chat is read. -/
def VOTING : List Phase := [.choice, .climax]

def delayOf (s : State) : Option ℕ :=
  match s.phase with
  | .choice => s.vote_window_seconds
  | .climax => do
    let scenario ← s.scenario
    let climax ← scenario.climax
    return climax.window_seconds
  | phase => some (HOLD_SECONDS phase)

def manualStop : Text := text ['m', 'a', 'n', 'u', 'a', 'l', '-', 's', 't', 'o', 'p']

/-- The state of the phase that follows. -/
def nextState (s : State) : Option State :=
  match s.phase with
  | .scene => open_choice s
  | .choice => close_choice s
  | .resolve => do
    let s ← advance_scene s
    if s.phase = .end then finish s else some s
  | .climax => close_climax s
  | .reveal => finish s
  | _ => some s

/-- A new window begins after what is in the file. -/
def World.openWindow (w : World) : World :=
  if w.data.state.phase ∈ VOTING then
    { w with data := { w.data with cursor := cursor_at_end w.file }, opened := cursor_at_end w.file, applied := [] }
  else w

def World.closeWindow (w : World) : World :=
  if w.data.state.phase ∈ VOTING then { w with windows := w.windows ++ [⟨w.opened, w.data.closing, w.applied⟩] } else w

def World.enter (w : World) (state : State) : World :=
  { w with data := { w.data with state := state, phase_at := w.clock, closing := none } }

def World.grown (inode : ℕ) (w : World) (more : Option (List ℕ)) : World := { w with file := grow inode w.file more }

/-- Phases end when they are due, and those with a window when what came before their end is read. -/
def advance (inode : ℕ) (w : World) (drained : Bool) (due : Bool) (more : Option (List ℕ)) : Option World := do
  if due && drained then
    let state ← nextState w.data.state
    return ((w.closeWindow.enter state).grown inode more).openWindow
  else return w

/-- The closing snapshot is taken by the first call at which the phase is due. -/
def World.snapshot (w : World) (due : Bool) : World :=
  { w with data := { w.data with closing := if due && w.data.closing.isNone then some (cursor_at_end w.file) else w.data.closing } }

def World.read (r : Reader) (w : World) : World × Bool :=
  let c := consume r w.file w.data.cursor w.data.state w.data.closing
  ({ w with data := { w.data with cursor := c.cursor, state := c.state }, applied := w.applied ++ c.messages }, c.drained)

def runPhase (r : Reader) (inode : ℕ) (w : World) (t : Tick) : Option World := do
  let delay ← delayOf w.data.state
  let due : Bool := delay ≤ w.clock - w.data.phase_at
  if w.data.state.phase ∈ VOTING then
    let (w, drained) := (((w.grown inode t.growth.1).snapshot due).grown inode t.growth.2.1).read r
    advance inode w drained due t.growth.2.2
  else advance inode w true due t.growth.2.2

def stoppedState (s : State) : StopReason → Option State
  | .duration => timeout s
  | .manual => fail s manualStop

def stopPhase (w : World) (reason : StopReason) : Option World :=
  (stoppedState w.data.state reason).map fun state => { w with data := { w.data with state := state } }

def activate (inode : ℕ) (w : World) (t : Tick) : Option World :=
  let w := w.grown inode t.growth.1
  (start w.data.state w.data.scenario).map fun state =>
    { w with data := { w.data with state := state, phase_at := w.clock, cursor := cursor_at_end w.file } }

/-- A call; none when it dies. -/
def tick (r : Reader) (inode : ℕ) (w : World) (t : Tick) : Option World :=
  let w := { w with clock := w.clock + t.elapsed }
  if w.data.state.phase = .idle then (activate inode w t).bind fun w => t.stop_reason.elim (some w) (stopPhase w)
  else if w.data.state.phase ∈ TERMINAL then some w
  else t.stop_reason.elim (runPhase r inode w t) (stopPhase w)

/-- The session that is prepared over a file with these bytes, or over none. -/
def prepare (inode : ℕ) (bytes : Option (List ℕ)) (clock : ℚ) (scenario : Scenario) : World where
  file := bytes.map (File.mk inode)
  clock := clock
  data := ⟨scenario, new_state, clock, cursor_at_end (bytes.map (File.mk inode)), none⟩
  opened := cursor_at_end (bytes.map (File.mk inode))
  applied := []
  windows := []

def run (r : Reader) (inode : ℕ) (w : World) (ticks : List Tick) : Option World := ticks.foldlM (tick r inode) w

end Docich.Trpg
