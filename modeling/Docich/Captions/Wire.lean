import Docich.Captions.Text
import Docich.Wire.Base64
import Docich.Wire.Scan

/-!
# The caption wire

The line that the client sends for an operation (`Client.request`), and what the filter reads in it (`parseRequest`).

* The filter looks a key up as the first place of the line where it stands between quotes, so it also finds a value
  that is spelled like the key.
* Decoding base64 is a parameter.
-/

namespace Docich.Captions

open Wire (Byte base64 strstr strtol quote)

/-! ## Requests -/

inductive Request
  | prepare (id : List Char) (page : Nat) (text : List Char)
  | commit (id : List Char) (page : Nat)
  | clear (id : List Char)
  | reset
  deriving DecidableEq

/-! ## The client -/

namespace Client

/-- An operation as the caller asks for it. -/
inductive Operation
  | prepare (id : List Char) (page : Int) (text : List Char)
  | commit (id : List Char) (page : Int)
  | clear (id : List Char)
  | reset

/-- The text of a caption, line by line. -/
def prepareText (nfkd : List Char → List Char) (text : List Char) : Except Raised (List Char) := do
  let lines := splitlines text
  if ¬ (1 ≤ lines.length ∧ lines.length ≤ 2) then
    throw (.protocol "caption text must contain one or two lines")
  let normalized ← lines.mapM (normalizeCaptionText nfkd)
  if normalized.any fun line => 32 < line.length then
    throw (.protocol "caption line exceeds 32 ASCII characters")
  pure (['\n'].intercalate normalized)

/-- The request that passes the client's checks. -/
def check (nfkd : List Char → List Char) : Operation → Except Raised Request
  | .prepare id page text => do
    let id ← validateExecutionId id
    let page ← validatePage page
    let text ← prepareText nfkd text
    pure (.prepare id page text)
  | .commit id page => do
    let id ← validateExecutionId id
    let page ← validatePage page
    pure (.commit id page)
  | .clear id => do
    let id ← validateExecutionId id
    pure (.clear id)
  | .reset => pure .reset

inductive Value
  | number (n : Nat)
  | string (s : List Char)

/-- A character of a JSON string that is sent as ASCII. -/
def escape (c : Char) : List Char :=
  let hex (n : Nat) : List Char :=
    '\\' :: 'u' :: [n / 4096 % 16, n / 256 % 16, n / 16 % 16, n % 16].map Nat.digitChar
  if c = '"' then ['\\', '"']
  else if c = '\\' then ['\\', '\\']
  else if isPrintable c then [c]
  else if c = '\n' then ['\\', 'n']
  else if c = '\r' then ['\\', 'r']
  else if c = '\t' then ['\\', 't']
  else if c.toNat = 8 then ['\\', 'b']
  else if c.toNat = 12 then ['\\', 'f']
  else if c.toNat < 0x10000 then hex c.toNat
  else hex (0xd800 + (c.toNat - 0x10000) / 0x400) ++ hex (0xdc00 + (c.toNat - 0x10000) % 0x400)

def Value.dumps : Value → List Char
  | .number n => Nat.toDigits 10 n
  | .string s => quote (s.flatMap escape)

/-- An object, without blanks. -/
def dumps (fields : List (List Char × Value)) : List Char :=
  '{' :: ([','].intercalate (fields.map fun f => quote (f.1.flatMap escape) ++ ':' :: f.2.dumps) ++ ['}'])

def bytesOf (text : List Char) : List Byte := text.map fun c => Fin.ofNat 256 c.toNat

def payload : Request → List (List Char × Value)
  | .prepare id page text =>
    [("v".toList, .number 1), ("op".toList, .string "prepare".toList), ("executionId".toList, .string id),
      ("page".toList, .number page), ("textBase64".toList, .string (base64 (bytesOf text)))]
  | .commit id page =>
    [("v".toList, .number 1), ("op".toList, .string "commit".toList), ("executionId".toList, .string id),
      ("page".toList, .number page)]
  | .clear id =>
    [("v".toList, .number 1), ("op".toList, .string "clear".toList), ("executionId".toList, .string id)]
  | .reset => [("v".toList, .number 1), ("op".toList, .string "reset".toList)]

def maxMessageBytes : Nat := 4096

def request (r : Request) : Except Raised (List Char) :=
  let wire := dumps (payload r) ++ ['\n']
  if maxMessageBytes < wire.length then throw (.protocol "caption request exceeds 4KiB") else pure wire

end Client

/-! ## The filter -/

/-- Why the filter turns a request down before it looks at its state. -/
inductive Rejection
  | badRequest
  | badExecution
  | badPage
  | badText
  deriving DecidableEq

def isBlank (c : Char) : Bool := c = ' ' || c = '\t'

/-- What stands after the colon of a key. -/
def afterColon (found : List Char) : Option (List Char) :=
  match found.dropWhile isBlank with
  | ':' :: value => some (value.dropWhile isBlank)
  | _ => none

def jsonValue (json key : List Char) : Option (List Char) :=
  match strstr (quote key) json with
  | none => none
  | some found => afterColon (found.drop (quote key).length)

def jsonString (json key : List Char) (outputSize : Nat) : Option (List Char) :=
  match jsonValue json key with
  | some ('"' :: value) =>
    let output := value.takeWhile fun c => c ≠ '"' && c ≠ '\\' && !(c.toNat < 0x20)
    if (value.drop output.length).head? = some '"' ∧ output ≠ [] ∧ output.length < outputSize then some output
    else none
  | _ => none

def jsonInteger (json key : List Char) : Option Int := do
  let value ← jsonValue json key
  let (parsed, rest) ← strtol value
  match rest with
  | c :: _ => if c = ',' ∨ c = '}' ∨ c = ' ' ∨ c = '\t' then some parsed else none
  | [] => none

def validExecutionId (value : List Char) : Bool :=
  value ≠ [] && value.length ≤ 128 && value.all isIdChar

/-- The columns of the line and the lines so far. -/
def validateTextFrom : List Byte → Nat → Nat → Bool
  | [], columns, _ => columns ≠ 0
  | c :: text, columns, lines =>
    if c.val = 10 then
      columns ≠ 0 && lines + 1 ≤ 2 && validateTextFrom text 0 (lines + 1)
    else
      !(c.val < 0x20 || 0x7e < c.val || 32 < columns + 1) && validateTextFrom text (columns + 1) lines

def maxText : Nat := 65

def validateText (text : List Byte) : Bool :=
  1 ≤ text.length && text.length ≤ maxText && validateTextFrom text 0 1

/-- A request whose operation is looked at only after its execution. -/
inductive Parsed
  | request (r : Request)
  | unsupported (id : List Char)
  deriving DecidableEq

def parsePage (json : List Char) : Except Rejection Nat :=
  match jsonInteger json "page".toList with
  | none => .error .badPage
  | some page => if page < 0 ∨ 31 < page then .error .badPage else .ok page.toNat

def parseText (decode : List Char → Nat → Option (List Byte)) (json : List Char) : Except Rejection (List Char) :=
  match jsonString json "textBase64".toList 256 with
  | none => .error .badText
  | some encoded =>
    match decode encoded maxText with
    | none => .error .badText
    | some decoded => if validateText decoded then .ok (decoded.map fun b => Char.ofNat b.val) else .error .badText

/-- What the filter reads in a line. -/
def parseRequest (decode : List Char → Nat → Option (List Byte)) (json : List Char) : Except Rejection Parsed := do
  let operation ← match jsonInteger json "v".toList with
    | some 1 => match jsonString json "op".toList 16 with
      | some operation => pure operation
      | none => throw Rejection.badRequest
    | _ => throw Rejection.badRequest
  if operation = "reset".toList then
    pure (.request .reset)
  else do
    let id ← match jsonString json "executionId".toList 129 with
      | some id => if validExecutionId id then pure id else throw Rejection.badExecution
      | none => throw Rejection.badExecution
    if operation = "prepare".toList then do
      let page ← parsePage json
      let text ← parseText decode json
      pure (.request (.prepare id page text))
    else if operation = "commit".toList then do
      let page ← parsePage json
      pure (.request (.commit id page))
    else if operation = "clear".toList then
      pure (.request (.clear id))
    else
      pure (.unsupported id)

/-- The first line of what was received. -/
def lineOf (received : List Char) : List Char := received.takeWhile (· ≠ '\n')

/-- A key that the line spells before its place: the execution id. -/
def Request.Mistaken : Request → Prop
  | .prepare id _ _ => id = "page".toList ∨ id = "textBase64".toList
  | .commit id _ => id = "page".toList
  | .clear _ => False
  | .reset => False

end Docich.Captions
