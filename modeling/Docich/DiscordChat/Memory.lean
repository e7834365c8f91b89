import Mathlib.Data.List.Dedup
import Mathlib.Data.List.Perm.Subperm
import Mathlib.Data.Rat.Init

/-!
# The memory of the chat bot

- `Row`, `Db`: the tables `conversations` and `terms`;
- `searchTerms`: the words of a text that it can be recalled by;
- `beginConversation`, `markSending`, `failConversation`, `finishConversation`, `commitDeliveredConversation`: the
  states of an exchange;
- `memoryContext`, `validContext`: the stored exchanges that a reply is generated from;
- `forgetScope`: forget exchanges.

A text is a list of UTF-16 code units. `normalize("NFKC").toLowerCase()` is a parameter.
-/

namespace Docich.DiscordChat

/-- A string, as its code units. -/
abbrev Text := List Nat

/-- The code units of a literal of the source. -/
def units (s : String) : Text :=
  s.toList.flatMap fun c =>
    if c.toNat < 65536 then [c.toNat]
    else [55296 + (c.toNat - 65536) / 1024, 56320 + (c.toNat - 65536) % 1024]

/-! ## Tables -/

inductive State
  | pending
  | sending
  | sent
  | failed
  | deleted
  deriving DecidableEq

structure Row where
  seq : Nat
  message_id : Text
  guild_id : Text
  channel_id : Text
  author_id : Text
  author_name : Text
  content : Text
  reference_id : Option Text
  created_at : ℚ
  state : State
  reply_id : Option Text := none
  reply : Text := []
  deriving DecidableEq

/-- Rows in the order of `seq`; no row is ever removed. -/
structure Db where
  rows : List Row := []
  terms : List (Text × Nat) := []

/-- `UPDATE conversations SET … WHERE …`. -/
def Db.update (db : Db) (p : Row → Bool) (f : Row → Row) : Db :=
  { db with rows := db.rows.map fun r => if p r then f r else r }

/-- `SELECT … FROM conversations WHERE seq=?`. -/
def Db.find (db : Db) (seq : Nat) : Option Row := db.rows.find? fun r => r.seq = seq

/-- A message, or a turn of the voice channel. -/
structure Event where
  id : Text
  guildId : Text
  channelId : Text
  authorId : Text
  authorName : Text
  content : Text
  referenceId : Option Text
  createdAt : ℚ

def RECENT_LIMIT : Nat := 6
def RECALL_LIMIT : Nat := 4

/-! ## Search terms -/

/-- `[a-z0-9_]`. -/
def isWordUnit (u : Nat) : Bool := (97 ≤ u && u ≤ 122) || (48 ≤ u && u ≤ 57) || u == 95

/-- `[\u3040-\u30ff\u3400-\u9fff]`. -/
def isKanaUnit (u : Nat) : Bool := (12352 ≤ u && u ≤ 12543) || (13312 ≤ u && u ≤ 40959)

/-- `word.slice(i, i + 2)`, for every `i` with a unit after it. -/
def pairs : Text → List Text
  | a :: b :: rest => [a, b] :: pairs (b :: rest)
  | _ => []

/-- The terms of the words of a text. The open run of units of one kind is kept reversed. -/
def termsFrom : Text → Text → List Text
  | run, [] => closeRun run
  | run, u :: rest =>
    if run.all isWordUnit && isWordUnit u || run.all isKanaUnit && isKanaUnit u then termsFrom (u :: run) rest
    else if isWordUnit u || isKanaUnit u then closeRun run ++ termsFrom [u] rest
    else closeRun run ++ termsFrom [] rest
where
  /-- A run of letters is a term when it has two units; any other run has the terms of its pairs. -/
  closeRun (run : Text) : List Text :=
    if run.all isWordUnit then (if 2 ≤ run.length then [run.reverse] else []) else pairs run.reverse

/-- The order of strings: by code units. -/
def textLe : Text → Text → Bool
  | [], _ => true
  | _ :: _, [] => false
  | a :: as, b :: bs => a < b || a == b && textLe as bs

def searchTerms (normalize : Text → Text) (text : Text) (limit : Nat) : List Text :=
  ((termsFrom [] (normalize text)).dedup.mergeSort textLe).take limit

/-! ## States of an exchange -/

/-- The texts of a row are taken out. -/
def Row.cleared (r : Row) (state : State) : Row :=
  { r with state := state, content := [], author_name := [], reply := [] }

def Row.open (r : Row) : Bool := r.state = .pending || r.state = .sending

def initializeMemory (db : Db) : Db := db.update Row.open fun r => r.cleared .failed

def Db.newRow (db : Db) (event : Event) : Row where
  seq := db.rows.length + 1
  message_id := event.id
  guild_id := event.guildId
  channel_id := event.channelId
  author_id := event.authorId
  author_name := event.authorName.take 80
  content := event.content.take 2000
  reference_id := event.referenceId.filter (· ≠ [])
  created_at := event.createdAt
  state := .pending

def beginConversation (db : Db) (event : Event) : Option (Db × Nat) :=
  if db.rows.any fun r => r.message_id = event.id then none
  else some ({ db with rows := db.rows ++ [db.newRow event] }, db.rows.length + 1)

def isActive (db : Db) (seq : Nat) : Bool := (db.find seq).any fun r => r.state = .pending

def markSending (db : Db) (seq : Nat) : Option Db :=
  if isActive db seq then some (db.update (fun r => r.seq = seq) fun r => { r with state := .sending }) else none

def failConversation (db : Db) (seq : Nat) : Db :=
  db.update (fun r => r.seq = seq && r.open) fun r => r.cleared .failed

/-- A reply id that a row has already makes the update raise. -/
def finishConversation (normalize : Text → Text) (db : Db) (seq : Nat) (replyId reply : Text) :
    Except Unit (Db × Bool) :=
  match db.find seq with
  | none => .ok (db, false)
  | some row =>
    if row.state ≠ .sending then .ok (db, false)
    else if db.rows.any fun r => r.seq ≠ seq && r.reply_id = some replyId then .error ()
    else
      let done := db.update (fun r => r.seq = seq) fun r =>
        { r with state := .sent, reply_id := some replyId, reply := reply }
      .ok ({ done with
        terms := done.terms ++ ((searchTerms normalize row.content 256).map fun term => (term, seq)).filter
          (· ∉ done.terms) }, true)

inductive CommitStatus
  | already_committed
  | conflict
  | committed
  | raised

def commitDeliveredConversation (normalize : Text → Text) (db : Db) (event : Event) (replyId reply : Text) :
    Db × CommitStatus :=
  match db.rows.find? fun r => r.message_id = event.id with
  | some row =>
    let same := row.state = .sent ∧ row.guild_id = event.guildId ∧ row.channel_id = event.channelId ∧
      row.author_id = event.authorId ∧ row.content = event.content.take 2000 ∧ row.reply_id = some replyId ∧
      row.reply = reply
    (db, if same then .already_committed else .conflict)
  | none => match beginConversation db event with
    | none => (db, .conflict)
    | some (db, seq) => match markSending db seq with
      | none => (failConversation db seq, .conflict)
      | some db => match finishConversation normalize db seq replyId reply with
        | .error _ => (db, .raised)
        | .ok (db, true) => (db, .committed)
        | .ok (db, false) => (failConversation db seq, .conflict)

/-! ## Contexts -/

/-- The two messages of a stored exchange. -/
structure Stored where
  message_id : Text
  author_id : Text
  name : Text
  created_at : ℚ
  text : Text
  reply : Text

structure Context where
  messages : List Stored
  sources : List Nat

def Row.stored (r : Row) : Stored := ⟨r.message_id, r.author_id, r.author_name, r.created_at, r.content, r.reply⟩

/-- Sent exchanges of the author in the channel before the given one, the last first. -/
def sentBefore (db : Db) (event : Event) (beforeSeq : Nat) : List Row :=
  (db.rows.filter fun r => r.guild_id = event.guildId && r.channel_id = event.channelId &&
    r.author_id = event.authorId && decide (r.seq < beforeSeq) && r.state = .sent).reverse

def matchesOf (db : Db) (tokens : List Text) (r : Row) : Nat := tokens.countP fun t => (t, r.seq) ∈ db.terms

def memoryContext (normalize : Text → Text) (db : Db) (event : Event) (beforeSeq : Nat) : Context :=
  let recent := (sentBefore db event beforeSeq).take RECENT_LIMIT
  let cutoff := (recent.map Row.seq).min?.getD beforeSeq
  let tokens := searchTerms normalize event.content 48
  let recalled := (((sentBefore db event cutoff).filter fun r => 0 < matchesOf db tokens r).mergeSort
    fun a b => matchesOf db tokens b ≤ matchesOf db tokens a).take RECALL_LIMIT
  let rows := db.rows.filter (· ∈ recent ++ recalled)
  { messages := rows.map Row.stored, sources := rows.map Row.seq }

def validMemorySources (db : Db) (context : Context) : Bool :=
  context.sources.isEmpty ||
    (db.rows.filter fun r => r.state = .sent && context.sources.contains r.seq).length = context.sources.length

def validContext (db : Db) (currentSeq : Nat) (context : Context) : Bool :=
  isActive db currentSeq && validMemorySources db context

/-! ## Forgetting -/

/-- Which exchanges of a channel are forgotten: those of an author, or those with one of the ids. -/
structure Scope where
  guildId : Text
  channelId : Text
  messageIds : List Text := []
  authorId : Option Text := none

/-- The exchange is in the channel, and the author's or with one of the ids. -/
def Scope.covers (f : Scope) (r : Row) : Bool :=
  r.guild_id = f.guildId && r.channel_id = f.channelId &&
    match f.authorId with
    | some author => r.author_id = author
    | none => f.messageIds.contains r.message_id || r.reply_id.any f.messageIds.contains

def forgetScope (db : Db) (f : Scope) : Db :=
  if f.authorId = none ∧ f.messageIds = [] then db
  else
    let forgotten := (db.rows.filter f.covers).map Row.seq
    let kept : Db := { db with terms := db.terms.filter fun t => !forgotten.contains t.2 }
    kept.update f.covers fun r => { r.cleared .deleted with reference_id := none }

end Docich.DiscordChat
