import Docich.Captions.Text
import Docich.Wire.Json

/-!
# The overlay event queue

- `validateEvent`: the event that is kept of a mapping;
- `loadEvents`: the rows of the queue file;
- `appendEvent`, `deleteEvent`: the two calls that rewrite it.

What `str()` and `int()` make of a value that is neither a string nor an integer is a parameter (`Conversions`). The file
is its text; the two calls hold the queue lock, and a write replaces the file.
-/

namespace Docich.Overlay

open Captions (splitlines)
open Wire (Json Dict isFalsy loads)

/-! ## Texts -/

/-- `str.isspace` -/
def isSpace (c : Char) : Bool :=
  (9 ≤ c.toNat && c.toNat ≤ 13) || (0x1c ≤ c.toNat && c.toNat ≤ 0x20) || c.toNat = 0x85 || c.toNat = 0xa0 ||
    c.toNat = 0x1680 || (0x2000 ≤ c.toNat && c.toNat ≤ 0x200a) || c.toNat = 0x2028 || c.toNat = 0x2029 ||
    c.toNat = 0x202f || c.toNat = 0x205f || c.toNat = 0x3000

def strip (text : List Char) : List Char := ((text.dropWhile isSpace).reverse.dropWhile isSpace).reverse

inductive OverlayQueueError
  | control
  | tooLong
  | category
  | noTitle
  | titleBreak
  | sourceId
  | keep
  | index
  deriving DecidableEq

/-- `raise` when the condition fails. -/
def check (c : Bool) (e : OverlayQueueError) : Except OverlayQueueError Unit := if c then .ok () else .error e

def isControl (c : Char) : Bool := c.toNat < 32 && c ≠ '\n' && c ≠ '\r' && c ≠ '\t'

def sanitizeText (value : List Char) (limit : ℕ) : Except OverlayQueueError (List Char) :=
  if value.any isControl then .error .control
  else if limit < (strip value).length then .error .tooLong
  else .ok (strip value)

/-! ## Events -/

/-- `str()` and `int()` of values that are neither strings nor integers. -/
structure Conversions where
  str : Json → List Char
  int : Json → Option ℤ

def Conversions.strOf (k : Conversions) : Json → List Char
  | .string s => s
  | x => k.str x

def Conversions.intOf (k : Conversions) : Json → Option ℤ
  | .int n => some n
  | x => k.int x

def tsKey : List Char := ['t', 's']
def categoryKey : List Char := ['c', 'a', 't', 'e', 'g', 'o', 'r', 'y']
def titleKey : List Char := ['t', 'i', 't', 'l', 'e']
def bodyKey : List Char := ['b', 'o', 'd', 'y']
def levelKey : List Char := ['l', 'e', 'v', 'e', 'l']
def sourceIdKey : List Char := ['s', 'o', 'u', 'r', 'c', 'e', '_', 'i', 'd']

def info : List Char := ['i', 'n', 'f', 'o']

def levels : List (List Char) := [info, ['w', 'a', 'r', 'n'], ['e', 'r', 'r', 'o', 'r']]

def overlayCategories : List (List Char) :=
  [['g', 'a', 'm', 'e'], ['w', 'o', 'r', 'k', 'e', 'r'], ['c', 'h', 'a', 't'], ['r', 'a', 'd', 'i', 'o'],
   ['p', 'r', 'e', 'd', 'i', 'c', 't', 'i', 'o', 'n'], ['r', 'o', 'l', 'l', 'b', 'a', 'c', 'k'],
   ['s', 'y', 's', 't', 'e', 'm'], ['d', 'e', 'a', 'd', 'l', 'i', 'n', 'e']]

def titleLimit : ℕ := 120
def bodyLimit : ℕ := 500

structure Event where
  ts : ℤ
  category : List Char
  title : List Char
  body : List Char
  level : List Char
  source_id : Option (List Char)
  deriving DecidableEq

def isSourceIdChar (c : Char) : Bool :=
  c.isAlphanum || c = '.' || c = '_' || c = ':' || c = '/' || c = '-'

/-- `SOURCE_ID_RE.fullmatch` -/
def isSourceId (s : List Char) : Bool := 1 ≤ s.length && s.length ≤ 200 && s.all isSourceIdChar

/-- A time that is far from the current one is replaced by it. -/
def clampTs (current ts : ℤ) : ℤ := if ts > current + 60 ∨ ts < current - 7 * 86400 then current else ts

def timeOf (k : Conversions) (current : ℤ) : Option Json → ℤ
  | none | some .null => clampTs current current
  | some x => clampTs current ((k.intOf x).getD current)

def levelOf (level : List Char) : List Char :=
  let level := strip level
  if level ∈ levels then level else info

def sourceText (k : Conversions) (x : Json) : List Char := strip (if isFalsy x then [] else k.strOf x)

def sourceIdOf (k : Conversions) : Option Json → Except OverlayQueueError (Option (List Char))
  | none => .ok none
  | some x => if isSourceId (sourceText k x) then .ok (some (sourceText k x)) else .error .sourceId

def validateEvent (k : Conversions) (now : ℤ) (event : Dict) : Except OverlayQueueError Event := do
  let category := strip (((event.get categoryKey).map k.strOf).getD [])
  check (category ∈ overlayCategories) .category
  let title ← sanitizeText (((event.get titleKey).map k.strOf).getD []) titleLimit
  check (title ≠ []) .noTitle
  check ('\n' ∉ title ∧ '\r' ∉ title) .titleBreak
  let body ← sanitizeText (((event.get bodyKey).map k.strOf).getD []) bodyLimit
  let level := levelOf (((event.get levelKey).map k.strOf).getD info)
  let ts := timeOf k now (event.get tsKey)
  let source_id ← sourceIdOf k (event.get sourceIdKey)
  return { ts := ts, category := category, title := title, body := body, level := level, source_id := source_id }

/-- The dictionary that is written for an event. -/
def Event.fields (e : Event) : Dict :=
  [(tsKey, .int e.ts), (categoryKey, .string e.category), (titleKey, .string e.title), (bodyKey, .string e.body),
   (levelKey, .string e.level)] ++ (e.source_id.map fun s => (sourceIdKey, Json.string s)).toList

/-! ## The file -/

/-- The separators of `json.dumps`. -/
def separators : Wire.Separators where
  comma := [',', ' ']
  colon := [':', ' ']

/-- `read_text`: every end of a line is read as one. -/
def readText : List Char → List Char
  | '\r' :: '\n' :: text => '\n' :: readText text
  | '\r' :: text => '\n' :: readText text
  | c :: text => c :: readText text
  | [] => []

/-- The dictionaries of the lines that hold one. -/
def loadEvents (file : Option (List Char)) : List Dict :=
  match file with
  | none => []
  | some text => (splitlines (readText text)).filterMap fun line =>
    if strip line = [] then none
    else match loads line with
      | some (.object fields) => some fields
      | _ => none

/-- The text of these rows. -/
def contentOf (rows : List Dict) : List Char :=
  let lines := rows.map fun d => (Json.object d).dumps separators
  ['\n'].intercalate lines ++ if rows = [] then [] else ['\n']

/-- `-keep:` -/
def lastRows {α : Type} (keep : ℕ) (rows : List α) : List α := rows.drop (rows.length - keep)

/-- Rows that are valid, each at the time it is looked at. -/
def revalidate (k : Conversions) (clock : ℕ → ℤ) (existing : List Dict) : List Event :=
  existing.zipIdx.filterMap fun d => (validateEvent k (clock (d.2 + 1)) d.1).toOption

/-- What is written when the event is accepted; none when it is already there. -/
def appended (keep : ℕ) (normalized : Event) (existing : List Event) : Option (List Event) :=
  match normalized.source_id with
  | some id =>
    let matched := existing.filter fun e => e.source_id = some id
    if matched.getLast? = some normalized then none
    else some (lastRows keep (existing.filter (fun e => e.source_id ≠ some id) ++ [normalized]))
  | none => if normalized ∈ existing then none else some (lastRows keep (existing ++ [normalized]))

/-- The answer of `append_event`, and the file after it. -/
def appendEvent (k : Conversions) (clock : ℕ → ℤ) (keep : ℤ) (event : Dict) (file : Option (List Char)) :
    Except OverlayQueueError (Bool × Option (List Char)) := do
  let normalized ← validateEvent k (clock 0) event
  check (0 < keep) .keep
  match appended keep.toNat normalized (revalidate k clock (loadEvents file)) with
  | none => return (false, file)
  | some records => return (true, some (contentOf (records.map Event.fields)))

/-- The number of rows that `delete_event` leaves, and the file after it. -/
def deleteEvent (index : ℤ) (file : Option (List Char)) : Except OverlayQueueError (ℕ × Option (List Char)) :=
  let events := loadEvents file
  if index < 0 ∨ index ≥ events.length then .error .index
  else
    let events := events.eraseIdx index.toNat
    .ok (events.length, some (contentOf events))

end Docich.Overlay
