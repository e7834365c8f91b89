import Docich.DiscordChat.Memory

/-!
# The chat bot

- `Bot`: the tables, the queued mentions, the mention that is being answered, the voice turns in flight, and `log`: what
  has happened so far, the last first;
- `Action`: what may happen next: a gateway event, the end of an await, a voice request, a restart;
- `step`: what the bot makes of it.

JavaScript runs to the next await without a break, so a step goes from one await to the next. Which messages are
addressed to the bot is left out: any message may be accepted. The model and Discord answer what they want, or fail.
-/

namespace Docich.DiscordChat

def MAX_PENDING : Nat := 32
def MAX_VOICE_PENDING : Nat := 2

/-- `記憶を削除`, the request of an author. -/
def FORGET_REQUEST : Text := units "記憶を削除"

/-- What `trim` takes off. -/
def isSpace (u : Nat) : Bool :=
  (9 ≤ u && u ≤ 13) || u == 32 || u == 160 || u == 5760 || (8192 ≤ u && u ≤ 8202) || u == 8232 || u == 8233 ||
    u == 8239 || u == 8287 || u == 12288 || u == 65279

def trim (text : Text) : Text := ((text.dropWhile isSpace).reverse.dropWhile isSpace).reverse

/-- A scope that was forgotten, with the number of rows at that time. -/
structure Forget where
  scope : Scope
  upto : Nat

/-- What has happened. -/
inductive Entry
  | forgot (f : Forget)
  /-- A context was built from the rows. -/
  | built (sources : List Nat)
  /-- The model has answered a mention. -/
  | generated (id : Text)
  /-- A generated reply was handed to `sendDiscordReply`. -/
  | handed (event : Event) (sources : List Nat)
  /-- The notice of a failure was. -/
  | notified (event : Event)
  /-- A reply to a voice turn was returned. -/
  | voiced (sources : List Nat)

/-- Where the mention that is being answered waits. -/
inductive Task
  | generating (event : Event) (seq : Nat) (context : Context)
  | sending (event : Event) (seq : Nat) (reply : Text)
  | forgetting (event : Event) (seq : Nat)
  | notifying (event : Event)

structure Bot where
  db : Db := {}
  queue : List Event := []
  task : Option Task := none
  voice : List (Event × Context) := []
  log : List Entry := []

def Bot.pendingCount (s : Bot) : Nat := s.queue.length + (if s.task.isSome then 1 else 0)

inductive Action
  /-- `#acceptMessage` of a message that is addressed to the bot. -/
  | accept (event : Event)
  /-- The next queued mention is begun. -/
  | start
  /-- The model answers the mention, or generating fails. -/
  | generated (reply : Option Text)
  /-- Discord answers the id of the sent reply, or sending fails. -/
  | delivered (replyId : Option Text)
  /-- A notice was sent, or sending it failed. -/
  | noticed (ok : Bool)
  /-- `MESSAGE_DELETE`, `MESSAGE_DELETE_BULK`, or `MESSAGE_UPDATE` with a content. -/
  | forget (guildId channelId : Text) (ids : List Text)
  | voiceReply (event : Event)
  | voiceGenerated (turn : Nat) (reply : Option Text)
  | voiceCommit (event : Event) (replyId reply : Text)
  | restart

/-- `#forgetMessages`, and the request of an author. -/
def Bot.forget (s : Bot) (f : Scope) : Bot :=
  { s with db := forgetScope s.db f, log := .forgot ⟨f, s.db.rows.length⟩ :: s.log }

variable (normalize : Text → Text)

/-- `#processMention`, up to its first await. -/
def Bot.begin (s : Bot) (event : Event) : Bot :=
  match beginConversation s.db event with
  | none => s
  | some (db, seq) =>
    if trim event.content = FORGET_REQUEST then
      { Bot.forget { s with db := db } ⟨event.guildId, event.channelId, [], some event.authorId⟩ with
        task := some (.forgetting event seq) }
    else
      let context := memoryContext normalize db event seq
      { s with db := db, task := some (.generating event seq context), log := .built context.sources :: s.log }

/-- `#processMention`, when generating has ended. -/
def Bot.answer (s : Bot) (event : Event) (seq : Nat) (context : Context) : Option Text → Bot
  | none => { s with
      db := failConversation s.db seq
      task := some (.notifying event)
      log := .notified event :: s.log }
  | some reply =>
    if !validContext s.db seq context then
      { s with db := failConversation s.db seq, task := none, log := .generated event.id :: s.log }
    else match markSending s.db seq with
      | none => { s with task := none, log := .generated event.id :: s.log }
      | some db => { s with
          db := db
          task := some (.sending event seq reply)
          log := .handed event context.sources :: .generated event.id :: s.log }

/-- `#processMention`, when sending has ended. -/
def Bot.finish (s : Bot) (seq : Nat) (reply : Text) : Option Text → Bot
  | none => { s with db := failConversation s.db seq, task := none }
  | some replyId => match finishConversation normalize s.db seq replyId reply with
    | .error _ => { s with db := failConversation s.db seq, task := none }
    | .ok (db, _) => { s with db := db, task := none }

def step (s : Bot) : Action → Option Bot
  | .accept event =>
    -- A busy bot answers at once and does not queue the message.
    if MAX_PENDING ≤ s.pendingCount then some s else some { s with queue := s.queue ++ [event] }
  | .start => match s.task, s.queue with
    | none, event :: rest => some ({ s with queue := rest }.begin normalize event)
    | _, _ => none
  | .generated reply => match s.task with
    | some (.generating event seq context) => some (s.answer event seq context reply)
    | _ => none
  | .delivered replyId => match s.task with
    | some (.sending _ seq reply) => some (s.finish normalize seq reply replyId)
    | _ => none
  | .noticed ok => match s.task with
    | some (.notifying _) => some { s with task := none }
    | some (.forgetting _ seq) =>
      some { s with db := if ok then s.db else failConversation s.db seq, task := none }
    | _ => none
  | .forget guildId channelId ids =>
    if guildId = [] ∨ channelId = [] ∨ ids.filter (· ≠ []) = [] then some s
    else some (s.forget ⟨guildId, channelId, ids.filter (· ≠ []), none⟩)
  | .voiceReply event =>
    if MAX_VOICE_PENDING ≤ s.voice.length then some s
    else
      -- Every row is before `Number.MAX_SAFE_INTEGER`.
      let context := memoryContext normalize s.db event (s.db.rows.length + 1)
      some { s with voice := s.voice ++ [(event, context)], log := .built context.sources :: s.log }
  | .voiceGenerated turn reply => match s.voice[turn]? with
    | none => none
    | some (_, context) =>
      let s := { s with voice := s.voice.eraseIdx turn }
      if reply.isSome && validMemorySources s.db context then some { s with log := .voiced context.sources :: s.log }
      else some s
  | .voiceCommit event replyId reply =>
    some { s with db := (commitDeliveredConversation normalize s.db event replyId reply).1 }
  | .restart => some { s with db := initializeMemory s.db, queue := [], task := none, voice := [] }

def acts (s : Bot) (actions : List Action) : Option Bot := actions.foldlM (step normalize) s

end Docich.DiscordChat
