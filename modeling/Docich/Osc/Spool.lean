import Docich.Wire.Json
import Docich.Wire.Utf8

/-!
# The event spool of the bridge

- `trimJsonl`, `appendJsonl`: what an append makes of the file;
- `Tail.new`, `Tail.read`: the reader of new lines;
- `step`: one call on the file.

Each byte of the file carries the call of `append_jsonl` that wrote it. No function looks at it.
-/

namespace Docich.Osc.Spool

open Wire (Json loads)

/-! ## The file -/

/-- A byte of the file, with the call that wrote it: 0 is what was there before the reader. A line feed has no call. -/
inductive Cell
  | newline
  | byte (b : ℕ) (call : ℕ)

/-- The bytes that a call writes. -/
def cells (call : ℕ) (bytes : List ℕ) : List Cell := bytes.map fun b => if b = 10 then .newline else .byte b call

def Cell.value : Cell → ℕ
  | .newline => 10
  | .byte b _ => b

/-- `split(b"\n")` -/
def split : List Cell → List (List Cell)
  | [] => [[]]
  | .newline :: rest => [] :: split rest
  | c :: rest =>
    match split rest with
    | [] => [[c]]
    | line :: lines => (c :: line) :: lines

def MAX_EVENT_LINE : ℕ := 8192

def JSONL_KEEP_LINES : ℕ := 500

/-- How much of the end of the file is kept. -/
def TRIM_BYTES : ℕ := 512 * 1024

/-- `[-n:]` -/
def lastOf {α : Type} (n : ℕ) (l : List α) : List α := l.drop (l.length - n)

def trimJsonl (max_bytes : ℤ) (file : List Cell) : List Cell :=
  if file.length ≤ max_bytes then file
  else
    let lines := lastOf JSONL_KEEP_LINES (split (lastOf TRIM_BYTES file))
    [Cell.newline].intercalate (lines.filter fun line => line ≠ []) ++ [.newline]

/-- The fields of a dictionary in the order of their keys, each key once. -/
abbrev Record := { fields : List (List Char × Json) // (Json.object fields).Plain }

def separators : Wire.Separators where
  comma := [',']
  colon := [':']

/-- The line of a record, without its end. -/
def lineOf (record : Record) : List ℕ := Wire.Utf8.encode ((Json.object record.1).dumps separators)

def payload (record : Record) : List ℕ := lineOf record ++ [10]

/-- The file after the call with this number; none when the record is too large. -/
def appendJsonl (call : ℕ) (record : Record) (max_bytes : ℤ) (file : Option (List Cell)) : Option (List Cell) :=
  if (payload record).length > MAX_EVENT_LINE * 2 then none
  else some (trimJsonl max_bytes (file.getD [] ++ cells call (payload record)))

/-! ## The reader -/

structure Tail where
  skip_existing : Bool
  max_line : ℕ
  initial_size : ℕ
  offset : ℕ
  buffer : List Cell
  opened : Bool

def Tail.new (skip_existing : Bool) (max_line : ℕ) (file : Option (List Cell)) : Tail where
  skip_existing := skip_existing
  max_line := max_line
  initial_size := (file.getD []).length
  offset := 0
  buffer := []
  opened := false

/-- `bytes.isspace` -/
def isSpace (b : ℕ) : Bool := b = 32 || (9 ≤ b && b ≤ 13)

/-- A dictionary that was read, with the call that wrote the first byte of its line. -/
abbrev Event := ℕ × List (List Char × Json)

def callOf : List Cell → ℕ
  | .byte _ call :: _ => call
  | _ => 0

def eventOf (max_line : ℕ) (line : List Cell) : Option Event :=
  if line.all (fun c => isSpace c.value) then none
  else if max_line < line.length then none
  else match (Wire.Utf8.decode (line.map Cell.value)).bind loads with
    | some (.object fields) => some (callOf line, fields)
    | _ => none

/-- The events of the complete lines, and what stands after the last of them. -/
def eventsOf (max_line : ℕ) (chunk : List Cell) : List Event × List Cell :=
  ((split chunk).dropLast.filterMap (eventOf max_line), (split chunk).getLastD [])

def Tail.read (t : Tail) (file : Option (List Cell)) : Tail × List Event :=
  match file with
  | none => ({ t with opened := false, offset := 0, buffer := [] }, [])
  | some file =>
    let t := if file.length < t.offset then { t with offset := 0, buffer := [] } else t
    let t :=
      if t.opened then t
      else { t with opened := true, offset := if t.skip_existing then t.initial_size else t.offset }
    if file.length ≤ t.offset then (t, [])
    else
      let chunk := file.drop t.offset
      let (events, buffer) := eventsOf t.max_line (t.buffer ++ chunk)
      ({ t with offset := t.offset + chunk.length, buffer := if t.max_line < buffer.length then [] else buffer }, events)

/-! ## Calls -/

inductive Op
  | append (record : Record) (max_bytes : ℤ)
  | read

/-- The file and the reader; the records that were appended, whether the file was ever trimmed, and what was returned are
read by no function. -/
structure World where
  file : Option (List Cell)
  tail : Tail
  appended : List Record
  trimmed : Bool
  returned : List Event

def step (w : World) : Op → World
  | .append record max_bytes =>
    match appendJsonl (w.appended.length + 1) record max_bytes w.file with
    | none => w
    | some file =>
      { w with
        file := some file
        appended := w.appended ++ [record]
        trimmed := w.trimmed || max_bytes < (w.file.getD []).length + (payload record).length }
  | .read =>
    let (tail, events) := w.tail.read w.file
    { w with tail := tail, returned := w.returned ++ events }

/-- The world in which the reader is built over a file that may be there. -/
def start (existing : Option (List ℕ)) (max_line : ℕ) : World where
  file := existing.map (cells 0)
  tail := Tail.new true max_line (existing.map (cells 0))
  appended := []
  trimmed := false
  returned := []

def after (existing : Option (List ℕ)) (max_line : ℕ) (ops : List Op) : World := ops.foldl step (start existing max_line)

end Docich.Osc.Spool
