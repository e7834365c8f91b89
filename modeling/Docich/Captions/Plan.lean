import Docich.Captions.Agreement
import Docich.Captions.Wrap

/-!
# Caption plans

A plan as it is built and written, and the reader that checks it again. A JSON value is what `json.loads` gives back for
a text that `json.dump` wrote.
-/

namespace Docich.Captions

/-! ## Plans -/

structure CaptionPage where
  index : Nat
  lines : List (List Char)

def CaptionPage.text (page : CaptionPage) : List Char := ['\n'].intercalate page.lines

structure BilingualSpeechChunk where
  index : Nat
  jaText : List Char
  enText : List Char
  pages : List CaptionPage

structure CaptionPlan where
  executionId : List Char
  maxColumns : Int
  maxLines : Int
  chunks : List BilingualSpeechChunk

/-- The whitespace of `str.strip`. -/
def isUnicodeSpace (c : Char) : Bool :=
  isSpace c || c.toNat = 0x85 || c.toNat = 0xa0 || c.toNat = 0x1680 || (0x2000 ≤ c.toNat && c.toNat ≤ 0x200a) ||
    c.toNat = 0x2028 || c.toNat = 0x2029 || c.toNat = 0x202f || c.toNat = 0x205f || c.toNat = 0x3000

def stripUnicode (text : List Char) : List Char :=
  ((text.dropWhile isUnicodeSpace).reverse.dropWhile isUnicodeSpace).reverse

/-- A check that fails with a message. -/
def need (condition : Bool) (message : String) : Except Raised Unit :=
  if condition then pure () else throw (.plan message)

/-! ## Building -/

/-- Lines in pages; every page takes at least one. -/
def pagesFrom (maxLines : Nat) : Nat → Nat → List (List Char) → List CaptionPage
  | 0, _, _ => []
  | _ + 1, _, [] => []
  | n + 1, index, line :: lines =>
    ⟨index, (line :: lines).take maxLines⟩ :: pagesFrom maxLines n (index + 1) ((line :: lines).drop maxLines)

def wrapCaptionPages (nfkd : List Char → List Char) (value : List Char) (maxColumns maxLines maxPages : Int) :
    Except Raised (List CaptionPage) := do
  need (1 ≤ maxColumns ∧ maxColumns ≤ 32) "maxColumns must be between 1 and 32"
  need (1 ≤ maxLines ∧ maxLines ≤ 2) "maxLines must be between 1 and 2"
  need (1 ≤ maxPages ∧ maxPages ≤ 32) "maxPages must be between 1 and 32"
  let normalized ← normalizeCaptionText nfkd value
  let lines := wrap maxColumns.toNat normalized
  need (lines ≠ []) "caption has no displayable lines"
  let pageCount := (lines.length + maxLines - 1) / maxLines
  need (pageCount ≤ maxPages) s!"caption requires {pageCount} pages; maximum is {maxPages}"
  pure (pagesFrom maxLines.toNat lines.length 0 lines)

/-- One chunk with its translation. -/
def planChunk (nfkd : List Char → List Char) (maxColumns maxLines maxPages : Int) (index : Nat)
    (japanese english : List Char) : Except Raised BilingualSpeechChunk := do
  need (stripUnicode japanese ≠ []) s!"Japanese chunk {index} is empty"
  let normalized ← normalizeCaptionText nfkd english
  let pages ← wrapCaptionPages nfkd normalized maxColumns maxLines maxPages
  pure ⟨index, stripUnicode japanese, normalized, pages⟩

def planChunks (nfkd : List Char → List Char) (maxColumns maxLines maxPages : Int) :
    Nat → List (List Char × List Char) → Except Raised (List BilingualSpeechChunk)
  | _, [] => pure []
  | index, (japanese, english) :: rest => do
    let chunk ← planChunk nfkd maxColumns maxLines maxPages index japanese english
    let chunks ← planChunks nfkd maxColumns maxLines maxPages (index + 1) rest
    pure (chunk :: chunks)

def buildCaptionPlan (nfkd : List Char → List Char) (chunks translations : List (List Char)) (executionId : List Char)
    (maxColumns maxLines maxPages : Int) : Except Raised CaptionPlan := do
  let executionId ← validateExecutionId executionId
  need (chunks ≠ [] ∧ translations ≠ []) "speech chunks and translations must be non-empty"
  let planned ← planChunks nfkd maxColumns maxLines maxPages 0 (chunks.zip translations)
  pure ⟨executionId, maxColumns, maxLines, planned⟩

/-! ## JSON -/

inductive Json
  | null
  | bool (b : Bool)
  | int (n : Int)
  | str (s : List Char)
  | arr (items : List Json)
  | obj (fields : List (String × Json))

def Json.fields? : Json → Option (List (String × Json))
  | .obj fields => some fields
  | _ => none

def Json.items? : Json → Option (List Json)
  | .arr items => some items
  | _ => none

def Json.str? : Json → Option (List Char)
  | .str s => some s
  | _ => none

/-- An integer that is not a boolean. -/
def Json.int? : Json → Option Int
  | .int n => some n
  | _ => none

/-- What a value is equal to among the integers. -/
def Json.number? : Json → Option Int
  | .bool b => some (if b then 1 else 0)
  | .int n => some n
  | _ => none

/-- `str` of a value; that of an array or an object has brackets, which no execution id has. -/
def Json.pyStr : Json → List Char
  | .null => "None".toList
  | .bool b => if b then "True".toList else "False".toList
  | .int n => (toString n).toList
  | .str s => s
  | .arr _ => "[]".toList
  | .obj _ => "\x7b\x7d".toList

def CaptionPage.toJson (page : CaptionPage) : Json :=
  .obj [("index", .int page.index), ("lines", .arr (page.lines.map .str))]

def BilingualSpeechChunk.toJson (chunk : BilingualSpeechChunk) : Json :=
  .obj [("index", .int chunk.index), ("jaText", .str chunk.jaText), ("enText", .str chunk.enText),
    ("pages", .arr (chunk.pages.map CaptionPage.toJson))]

def CaptionPlan.toJson (plan : CaptionPlan) : Json :=
  .obj [("v", .int 1), ("executionId", .str plan.executionId), ("language", .str "en".toList),
    ("maxColumns", .int plan.maxColumns), ("maxLines", .int plan.maxLines),
    ("chunks", .arr (plan.chunks.map BilingualSpeechChunk.toJson))]

/-! ## Reading -/

/-- A value of the wrong shape fails with a message. -/
def want {α : Type} (value : Option α) (message : String) : Except Raised α :=
  match value with
  | some a => pure a
  | none => throw (.plan message)

/-- The fields of an object that has exactly the given keys. -/
def exactFields (keys : List String) (json : Json) : Option (List (String × Json)) :=
  json.fields?.filter fun fields => (fields.map Prod.fst).all (· ∈ keys) && keys.all (· ∈ fields.map Prod.fst)

def field (fields : List (String × Json)) (key : String) : Json := (fields.lookup key).getD .null

def loadLine (nfkd : List Char → List Char) (maxColumns : Int) (chunkIndex pageIndex : Nat) (json : Json) :
    Except Raised (List Char) := do
  let line ← want json.str? s!"caption chunk {chunkIndex} page {pageIndex} exceeds its bounds"
  let normalized ← normalizeCaptionText nfkd line
  need (normalized = line ∧ line.length ≤ maxColumns) s!"caption chunk {chunkIndex} page {pageIndex} exceeds its bounds"
  pure line

def loadPage (nfkd : List Char → List Char) (maxColumns maxLines : Int) (chunkIndex pageIndex : Nat) (json : Json) :
    Except Raised (List (List Char)) := do
  let fields ← want (exactFields ["index", "lines"] json) s!"caption chunk {chunkIndex} page {pageIndex} is malformed"
  need ((field fields "index").number? = some (pageIndex : Int))
    s!"caption chunk {chunkIndex} page {pageIndex} index is malformed"
  let lines ← want (field fields "lines").items? s!"caption chunk {chunkIndex} page {pageIndex} lines are malformed"
  need (1 ≤ lines.length ∧ lines.length ≤ maxLines) s!"caption chunk {chunkIndex} page {pageIndex} lines are malformed"
  lines.mapM (loadLine nfkd maxColumns chunkIndex pageIndex)

def loadPages (nfkd : List Char → List Char) (maxColumns maxLines : Int) (chunkIndex : Nat) :
    Nat → List Json → Except Raised (List (List Char))
  | _, [] => pure []
  | pageIndex, page :: pages => do
    let lines ← loadPage nfkd maxColumns maxLines chunkIndex pageIndex page
    let flattened ← loadPages nfkd maxColumns maxLines chunkIndex (pageIndex + 1) pages
    pure (lines ++ flattened)

def loadChunk (nfkd : List Char → List Char) (maxColumns maxLines : Int) (chunkIndex : Nat) (json : Json) :
    Except Raised Unit := do
  let fields ← want (exactFields ["index", "jaText", "enText", "pages"] json) s!"caption chunk {chunkIndex} is malformed"
  need ((field fields "index").number? = some (chunkIndex : Int)) s!"caption chunk {chunkIndex} index is malformed"
  let japanese ← want (field fields "jaText").str? s!"caption chunk {chunkIndex} Japanese text is empty"
  need (stripUnicode japanese ≠ []) s!"caption chunk {chunkIndex} Japanese text is empty"
  let english ← want (field fields "enText").str? s!"caption chunk {chunkIndex} English text is not normalized"
  let normalized ← normalizeCaptionText nfkd english
  need (normalized = english) s!"caption chunk {chunkIndex} English text is not normalized"
  let pages ← want (field fields "pages").items? s!"caption chunk {chunkIndex} pages are malformed"
  need (1 ≤ pages.length ∧ pages.length ≤ 32) s!"caption chunk {chunkIndex} pages are malformed"
  let flattened ← loadPages nfkd maxColumns maxLines chunkIndex 0 pages
  need ([' '].intercalate flattened = english) s!"caption chunk {chunkIndex} pages do not match English text"

def loadChunks (nfkd : List Char → List Char) (maxColumns maxLines : Int) : Nat → List Json → Except Raised Unit
  | _, [] => pure ()
  | chunkIndex, chunk :: chunks => do
    loadChunk nfkd maxColumns maxLines chunkIndex chunk
    loadChunks nfkd maxColumns maxLines (chunkIndex + 1) chunks

def planKeys : List String := ["v", "executionId", "language", "maxColumns", "maxLines", "chunks"]

/-- `load_plan` on the value that was read. -/
def loadPlan (nfkd : List Char → List Char) (payload : Json) : Except Raised Json := do
  let _ ← want payload.fields? "caption plan must be a JSON object"
  let fields ← want (exactFields planKeys payload) "caption plan must match the exact schema"
  need ((field fields "v").number? = some 1) "caption plan protocol version is unsupported"
  let _ ← validateExecutionId (field fields "executionId").pyStr
  need ((field fields "language").str? = some "en".toList) "caption plan language must be en"
  let maxColumns ← want (field fields "maxColumns").int? "caption plan maxColumns must be between 1 and 32"
  need (1 ≤ maxColumns ∧ maxColumns ≤ 32) "caption plan maxColumns must be between 1 and 32"
  let maxLines ← want (field fields "maxLines").int? "caption plan maxLines must be between 1 and 2"
  need (1 ≤ maxLines ∧ maxLines ≤ 2) "caption plan maxLines must be between 1 and 2"
  let chunks ← want (field fields "chunks").items? "caption plan must contain at least one chunk"
  need (chunks ≠ []) "caption plan must contain at least one chunk"
  loadChunks nfkd maxColumns maxLines 0 chunks
  pure payload

end Docich.Captions
