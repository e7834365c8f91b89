import Docich.Overlay.Queue

/-!
# What is remembered of a batch of comments

- `normalize_name`, `viewer_key`: the key of a viewer;
- `parse_batch`: the comments of a batch, with the metadata of their rows;
- `build_staged_payload`: the events that are staged with the reply.

`Unicode` and the digest are parameters, and so is the search for the notice of a card. The lines of a batch are given, and
the rows of its sidecar by the texts in them.
-/

namespace Docich.ViewerMemory

open Overlay (isSpace strip)

abbrev Text := List Char

/-! ## Names -/

def isAscii (c : Char) : Bool := c.toNat < 128

def isCapital (c : Char) : Bool := 65 ≤ c.toNat && c.toNat ≤ 90

/-- Normal form KC and case folding, with what is used of the standards. -/
structure Unicode where
  nfkc : Text → Text
  casefold : Text → Text
  nfkc_ascii : ∀ t, (∀ c ∈ t, isAscii c = true) → nfkc t = t
  /-- What is not blank does not become blank. -/
  nfkc_blank : ∀ t, (∀ c ∈ nfkc t, isSpace c = true) → ∀ c ∈ t, isSpace c = true
  casefold_ascii : ∀ t, (∀ c ∈ t, isAscii c = true ∧ isCapital c = false) → casefold t = t

/-- `WHITESPACE_RE.sub(" ", text)` -/
def squeezeFrom : Bool → Text → Text
  | _, [] => []
  | after, c :: text =>
    if isSpace c then if after then squeezeFrom true text else ' ' :: squeezeFrom true text else c :: squeezeFrom false text

def rstrip (text : Text) : Text := (text.reverse.dropWhile isSpace).reverse

/-- The letters that match a letter of a tag when the case is ignored. -/
def tags : List (List (List Char)) :=
  [[['B', 'b'], ['I', 'i', 'ı', 'İ'], ['T', 't'], ['S', 's', 'ſ']], [['S', 's', 'ſ'], ['U', 'u'], ['B', 'b']],
    [['視'], ['聴'], ['記'], ['録']]]

/-- What is left behind a word, when the text begins with it. -/
def matchWord : List (List Char) → Text → Option Text
  | [], text => some text
  | _ :: _, [] => none
  | letters :: word, c :: text => if c ∈ letters then matchWord word text else none

def matchTag (text : Text) : Option Text :=
  tags.findSome? fun word => matchWord ([['[']] ++ word ++ [[']']]) text

/-- `EVENT_PREFIX_RE.sub("", text)`; a tag is at least one character, and there are no more of them than these. -/
def dropTags : ℕ → Text → Text
  | 0, text => text
  | n + 1, text =>
    match matchTag text with
    | none => text
    | some text => dropTags n (text.dropWhile isSpace)

def withoutEvent (text : Text) : Text := dropTags text.length text

def VALID_SOURCES : List Text := [['t', 'w', 'i', 't', 'c', 'h'], ['y', 'o', 'u', 't', 'u', 'b', 'e'], ['k', 'i', 'c', 'k']]

def unknown : Text := ['u', 'n', 'k', 'n', 'o', 'w', 'n']

inductive Kind
  | comment
  | card_acquired

inductive Mode
  | main
  | soren91

structure ViewerComment where
  key : Text
  fallback_key : Text
  source : Text
  display_name : Text
  normalized_name : Text
  comment : Text
  kind : Kind
  stable_id : Text
  message_id : Text
  rememberable : Bool

/-- The notice of a card: what `CARD_ACQUIRED_RE` finds. -/
structure CardMatch where
  viewer : Text
  card : Text
  detail : Text

def isToken (c : Char) : Bool :=
  (48 ≤ c.toNat && c.toNat ≤ 57) || (65 ≤ c.toNat && c.toNat ≤ 90) || (97 ≤ c.toNat && c.toNat ≤ 122) || c ∈ ['_', '.', ':', '@', '-']

def _clean_metadata_token (value : Text) (limit : ℕ) : Text := (value.filter isToken).take limit

section

variable (u : Unicode) (sha256 : Text → Text) (cards : Text → Option CardMatch)

def _collapse (value : Text) (limit : ℕ) : Text :=
  let text := strip (squeezeFrom false (u.nfkc value))
  if limit < text.length then rstrip (text.take (max 1 (limit - 1))) ++ ['…'] else text

def normalize_name (value : Text) : Text :=
  u.casefold ((_collapse u (withoutEvent value) 80).dropWhile (· = '@'))

def _source (value : Text) : Text :=
  let value := u.casefold (strip value)
  if value ∈ VALID_SOURCES then value else unknown

def identityOf (normalized_name stable_id : Text) : Text :=
  if stable_id ≠ [] then ['i', 'd', '\x00'] ++ _collapse u stable_id 160 else ['n', 'a', 'm', 'e', '\x00'] ++ normalized_name

def viewer_key (source normalized_name stable_id : Text) : Text :=
  _source u source ++ ':' :: (sha256 (_source u source ++ '\x00' :: identityOf u normalized_name stable_id)).take 24

/-! ## The sidecar of a batch -/

/-- A row of the sidecar, each value as a text; the flags, when they are a list. -/
structure SidecarRow where
  line_index : Option ℤ
  line : Text
  source : Text
  message_id : Text
  stable_id : Text
  login : Text
  display_name : Text
  flags : Option (List Text)

structure Entry where
  line : Text
  source : Text
  message_id : Text
  stable_id : Text
  login : Text
  display_name : Text
  flags : List Text

/-- The entries, when each row has its own place. -/
def entriesFrom (expected_index : ℤ) : List SidecarRow → Option (List Entry)
  | [] => some []
  | raw :: rows =>
    match raw.flags with
    | none => none
    | some flags =>
      if raw.line_index ≠ some expected_index then none
      else (entriesFrom (expected_index + 1) rows).map fun entries =>
        { line := _collapse u raw.line 800
          source := _source u raw.source
          message_id := _clean_metadata_token raw.message_id 160
          stable_id := _clean_metadata_token raw.stable_id 160
          login := _clean_metadata_token raw.login 80
          display_name := _collapse u raw.display_name 80
          flags := (flags.map (_clean_metadata_token · 40)).filter (· ≠ []) } :: entries

/-- A file that cannot be read, or has a bad row, has no entries. -/
def load_batch_metadata (rows : Option (List SidecarRow)) : List Entry :=
  (rows.bind fun rows => entriesFrom u 0 (rows.take 100)).getD []

/-! ## A batch -/

/-- `text.split(": ", 1)`, when there is one -/
def splitOnce : Text → Option (Text × Text)
  | [] => none
  | ':' :: ' ' :: rest => some ([], rest)
  | c :: text => (splitOnce text).map fun p => (c :: p.1, p.2)

def trustedCard : Text := ['t', 'r', 'u', 's', 't', 'e', 'd', '-', 'c', 'a', 'r', 'd']

def acquired : Text := ['を', '獲', '得', 'し', 'ま', 'し', 'た']

def nameOf (line display : Text) : Text × Text :=
  let bare := withoutEvent line
  if display ≠ [] ∧ (display ++ [':', ' ']).isPrefixOf bare then (display, bare.drop (display.length + 2))
  else (splitOnce line).getD ([], line)

/-- The viewer that a trusted notice names, with what is remembered of the card. -/
def cardComment (source : Text) (excluded : List Text) (message_id : Text) (found : CardMatch) : Option ViewerComment :=
  let display_name := _collapse u ((strip found.viewer).dropWhile (· = '@')) 80
  let normalized_name := normalize_name u display_name
  let card := _collapse u found.card 320
  let detail := _collapse u found.detail 200
  if display_name ≠ [] ∧ normalized_name ≠ [] ∧ normalized_name ∉ excluded then
    let card_memory := card ++ acquired ++ if detail ≠ [] then ' ' :: detail else []
    some
      { key := viewer_key u sha256 source normalized_name []
        fallback_key := viewer_key u sha256 source normalized_name []
        source := _source u source
        display_name := display_name
        normalized_name := normalized_name
        comment := _collapse u card_memory 600
        kind := .card_acquired
        stable_id := []
        message_id := message_id
        rememberable := true }
  else none

/-- The row of a line, when it is about this name. -/
def identified (entry : Option Entry) (metadata_name normalized_name : Text) : Option Entry :=
  entry.filter fun _ => normalize_name u metadata_name = normalized_name

/-- A line that is no notice. -/
def plainComment (source : Text) (excluded : List Text) (preserve_positions : Bool) (entry : Option Entry) (metadata_display raw_name
    raw_comment : Text) : Option ViewerComment :=
  if raw_name = [] then
    if preserve_positions ∧ raw_comment ≠ [] then
      some ⟨[], [], _source u source, [], [], _collapse u raw_comment 600, .comment, [], [], false⟩
    else none
  else
    let display_name := _collapse u (withoutEvent raw_name) 80
    let normalized_name := normalize_name u display_name
    let row := identified u entry (if metadata_display ≠ [] then metadata_display else raw_name) normalized_name
    let stable_id := row.elim [] fun entry => _clean_metadata_token entry.stable_id 160
    let message_id := row.elim [] fun entry => _clean_metadata_token entry.message_id 160
    let comment := _collapse u raw_comment 600
    if display_name = [] ∨ normalized_name = [] ∨ comment = [] then none
    else
      let memory_eligible : Bool := normalized_name ∉ excluded ∧ normalized_name ∉ [['不', '明'], unknown] ∧ stable_id ≠ []
      if ¬ memory_eligible ∧ ¬ preserve_positions then none
      else
        some
          { key := if memory_eligible then viewer_key u sha256 source normalized_name stable_id else []
            fallback_key := if memory_eligible then viewer_key u sha256 source normalized_name [] else []
            source := _source u source
            display_name := display_name
            normalized_name := normalized_name
            comment := comment
            kind := .comment
            stable_id := stable_id
            message_id := message_id
            rememberable := memory_eligible }

/-- The comment of a line, with the entry of its row. -/
def parseLine (source : Text) (excluded : List Text) (preserve_positions : Bool) (entry : Option Entry) (raw_line : Text) :
    Option ViewerComment :=
  let line := _collapse u raw_line 800
  -- a row of another source is not used
  let entry := entry.filter fun entry =>
    let entry_source := _source u (if entry.source ≠ [] then entry.source else source)
    entry_source = _source u source || entry_source = unknown
  let metadata_display := _collapse u (entry.elim [] Entry.display_name) 80
  let (raw_name, raw_comment) := nameOf line metadata_display
  let metadata_sender := normalize_name u (if metadata_display ≠ [] then metadata_display else entry.elim [] Entry.login)
  let trusted_card : Bool := trustedCard ∈ entry.elim [] Entry.flags
  let card_match := (if trusted_card then cards (withoutEvent line) else none) <|> cards raw_comment
  match card_match.filter fun _ => trusted_card && metadata_sender ∈ excluded with
  | some found =>
    cardComment u sha256 source excluded (_clean_metadata_token (entry.elim [] Entry.message_id) 160) found
  | none => plainComment u sha256 source excluded preserve_positions entry metadata_display raw_name raw_comment

def parse_batch (lines : List Text) (source : Text) (excluded : List Text) (rows : Option (List SidecarRow))
    (preserve_positions : Bool) : List ViewerComment :=
  let metadata := load_batch_metadata u rows
  (lines.mapIdx fun line_index raw_line =>
    parseLine u sha256 cards source excluded preserve_positions metadata[line_index]? raw_line).reduceOption

/-! ## The payload -/

/-- `\r\n` and `\r` as `\n` -/
def unixLines : Text → Text
  | [] => []
  | '\r' :: '\n' :: text => '\n' :: unixLines text
  | c :: text => (if c = '\r' then '\n' else c) :: unixLines text

/-- `re.split(r"\n\s*\n+", text)`: white space with two line ends in it separates, from the first of them to the last. -/
def splitParagraphs : ℕ → Text → Text → List Text
  | 0, part, text => [part ++ text]
  | n + 1, part, text =>
    match text with
    | [] => [part]
    | c :: text =>
      let run := (c :: text).takeWhile isSpace
      if c = '\n' ∧ 2 ≤ run.count '\n' then
        let separator := run.length - (run.reverse.takeWhile (· ≠ '\n')).length
        part :: splitParagraphs n [] ((c :: text).drop separator)
      else splitParagraphs n (part ++ [c]) text

def _reply_paragraphs (text : Text) : List Text :=
  let text := strip (unixLines text)
  if text = [] then [] else ((splitParagraphs (text.length + 1) [] text).map (_collapse u · 1200)).filter (· ≠ [])

structure StagedEvent where
  key : Text
  fallback_key : Text
  source : Text
  display_name : Text
  normalized_name : Text
  kind : Kind
  stable_id : Text
  message_id : Text
  comment : Text
  reply : Text

def _event_from_comment (item : ViewerComment) (reply : Text) : StagedEvent where
  key := item.key
  fallback_key := item.fallback_key
  source := item.source
  display_name := item.display_name
  normalized_name := item.normalized_name
  kind := item.kind
  stable_id := item.stable_id
  message_id := item.message_id
  comment := item.comment
  reply := _collapse u reply 1600

structure StagedPayload where
  staged_at : ℤ
  source : Text
  mode : Mode
  batch_hash : Text
  events : List StagedEvent

/-- Whether one reply answers a batch of one viewer. -/
def oneViewer (comments : List ViewerComment) : Bool :=
  let remembered := comments.filter (·.rememberable)
  (remembered.map ViewerComment.key).dedup.length = 1 && remembered.length = comments.length

def eventsOf (comments : List ViewerComment) (reply_text : Text) : List StagedEvent :=
  let paragraphs := _reply_paragraphs u reply_text
  let remembered := comments.filter (·.rememberable)
  if paragraphs.length = comments.length then
    ((comments.zip paragraphs).filter (·.1.rememberable)).map fun p => _event_from_comment u p.1 p.2
  else if oneViewer comments then
    remembered.head?.toList.map fun first =>
      { _event_from_comment u first (_collapse u reply_text 1600) with
        comment := _collapse u ([' ', '/', ' '].intercalate (remembered.map ViewerComment.comment)) 1200 }
  else remembered.map (_event_from_comment u · [])

def build_staged_payload (lines : List Text) (reply_text source : Text) (mode : Mode) (excluded : List Text)
    (rows : Option (List SidecarRow)) (batch_hash : Text) (now : ℤ) : StagedPayload where
  staged_at := now
  source := _source u source
  mode := mode
  batch_hash := _collapse u batch_hash 160
  events := eventsOf u (parse_batch u sha256 cards lines source excluded rows true) reply_text

end

end Docich.ViewerMemory
