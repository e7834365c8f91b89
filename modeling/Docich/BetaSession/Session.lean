import Docich.MoveGate.Gates

/-!
# A match session

One session plays one match over a socket. Its operations run one after another; each runs to its end, or to a save, and
goes on when the save is completed. In between the socket may connect and disconnect, and the process may die.

- `onConnect`, `onDisconnect`, `onMatch`, `onView`, `maybeMove`, `onMoveAck`: the operations;
- `resume`: what follows a save;
- `World.next`: one step of the session, its store, its socket, or the process;
- the log has what was saved, sent and learned, in that order.

Which views the brain can read, which game ids are well formed, and whether a session may join the queue again are
parameters; the move that the brain chooses is an input.
-/

namespace Docich.BetaSession

open MoveGate

inductive Feedback
  | unknown
  | accepted
  | foul

/-- A move that was prepared, with the view that it was chosen from. -/
structure Decision where
  moveNumber : ℤ
  observation : View
  usi : Text
  feedback : Feedback

structure Record where
  color : Color
  decisions : List Decision

/-- A move that was sent, with the place of its decision, and the connection whose acknowledgement counts. -/
structure Sent where
  intent : Intent
  index : ℕ
  epoch : ℕ
  generation : ℤ

structure Session where
  gate : JsGate
  gameId : Option Text
  record : Option Record
  pendingIndex : Option ℕ
  terminalSeen : Bool
  resigning : Bool
  stopping : Bool
  closed : Bool
  everConnected : Bool
  socketEpoch : ℕ
  connected : Bool
  awaiting : List Sent

/-- What a checkpoint has of a session. `restore` does not read `connected` and `needsSync` of the gate. -/
structure Checkpoint where
  gameId : Option Text
  record : Option Record
  gate : JsGate
  pendingIndex : Option ℕ
  terminalSeen : Bool
  resigning : Bool

/-- What is in the store: nothing yet, a checkpoint, or a finished match. -/
inductive Stored
  | empty
  | active (c : Checkpoint)
  | finished

structure Env where
  cats : Categories
  observes : View → Bool
  validGameId : Text → Bool
  allowQueueRejoin : Bool

def Session.new : Session :=
  ⟨Gate.new View Intent, none, none, none, false, false, false, false, false, 0, false, []⟩

def Session.checkpoint (s : Session) : Checkpoint :=
  ⟨s.gameId, s.record, s.gate, s.pendingIndex, s.terminalSeen, s.resigning⟩

def restoreGate (g : JsGate) : JsGate :=
  { g with generation := max 0 g.generation + 1, connected := false, needsSync := true }

def restore (c : Checkpoint) : Session where
  gate := restoreGate c.gate
  gameId := c.gameId
  record := c.record
  pendingIndex := c.pendingIndex
  terminalSeen := c.terminalSeen
  resigning := c.resigning
  stopping := c.gate.quiescing
  closed := false
  everConnected := false
  socketEpoch := 0
  connected := false
  awaiting := []

/-! ## Operations -/

/-- What the session saves, sends and learns: a save that is completed, a move with the own fouls of the view that it was
chosen from, `queue:join` with the game of the session, an acknowledgement that refuses a move, an accepted view. -/
inductive Entry
  | saved (value : Stored)
  | move (intent : Intent) (fouls : ℤ)
  | join (gameId : Option Text)
  | refused (intent : Intent)
  | viewed (view : View)

/-- How an operation goes on after a save. -/
inductive Next
  | done
  | reconnected
  | think
  | send (intent : Intent) (fouls : ℤ) (index epoch : ℕ)
  | close

/-- An operation up to its end or to a save. -/
structure Turn where
  session : Session
  log : List Entry
  save : Option (Stored × Next)

def stay (s : Session) : Turn := ⟨s, [], none⟩

def Session.close (s : Session) : Session := { s with closed := true, connected := false }

def pause (s : Session) : Turn := stay s.close

def save (s : Session) (next : Next) : Turn := ⟨s, [], some (.active s.checkpoint, next)⟩

/-- A session without a game saves nothing. -/
def persist (s : Session) : Turn := if s.gameId.isSome then save s .done else stay s

def Session.withGate (s : Session) (g : JsGate) : Session := { s with gate := g }

def Session.awaitView (s : Session) : Session := s.withGate { s.gate with needsSync := true }

/-- The feedback of the decision at a place. -/
def Session.setFeedback (s : Session) (index : ℕ) (feedback : Feedback) : Session :=
  { s with record := s.record.map fun r => { r with decisions := r.decisions.modify index fun d => { d with feedback := feedback } } }

def drain (s : Session) : Turn :=
  let s := { s with stopping := true, gate := { s.gate with quiescing := true } }
  if s.gameId.isSome then save s .done
  else if s.connected then stay s
  else pause s

/-- The rest of `onConnect`: a session with a game asks for its view, one without joins the queue. -/
def joinOrSync (env : Env) (s : Session) (reconnecting late : Bool) : Turn :=
  if MAX_INTEGER < s.gate.generation + 1 then pause s
  else
    let s := { s with everConnected := true, gate := s.gate.connect }
    if s.gameId.isSome then stay s
    else
      let s := s.withGate (jsAcceptView env.cats s.gate .null s.gate.generation true).1
      if s.stopping || late || (reconnecting && !env.allowQueueRejoin) then drain s
      else if s.closed || !s.connected then stay s
      else ⟨s, [.join s.gameId], none⟩

def onConnect (env : Env) (s : Session) (late : Bool) : Turn :=
  if s.everConnected && s.gameId.isSome then save s .reconnected else joinOrSync env s s.everConnected late

def onDisconnect (s : Session) : Turn := persist (s.withGate (s.gate.disconnect s.gate.generation))

/-- The payload of `match:found` and `game:active`: the game id when it is well formed, and the color. -/
structure Match where
  isNull : Bool
  gameId : Option Text
  yourColor : Option Color

def onMatch (env : Env) (s : Session) (payload : Match) (fromMatch : Bool) : Turn :=
  if !s.connected then stay s
  else if !fromMatch && payload.isNull then stay s
  else
    match payload.gameId.filter env.validGameId with
    | none => pause s
    | some gameId =>
      if s.gameId.any (· ≠ gameId) then pause s
      else
        let s := { s with gameId := some gameId }
        match fromMatch, payload.yourColor with
        | true, none => pause s
        | true, some color => save { s with record := some (s.record.getD ⟨color, []⟩) } .done
        | false, _ => save s .done

/-- A move is prepared and saved, when the view is of the own turn. A session with a view has a game, so it saves. -/
def maybeMove (env : Env) (s : Session) (choice : Option Text) : Turn :=
  if s.closed || !s.connected then stay s
  else if s.resigning then stay s
  else
    match jsMoveView s.gate with
    | none => stay s
    | some view =>
      if !env.observes view then stay s.awaitView
      else
        match s.record, choice with
        | none, _ => pause s
        | some _, none => save { s with resigning := true } .done
        | some record, some usi =>
          match jsPrepareMove s.gate (.string usi) with
          | (_, .error _) => pause s
          | (gate, .ok intent) =>
            let index := record.decisions.length
            save { s with
              gate := gate
              pendingIndex := some index
              record := some { record with decisions := record.decisions ++ [⟨view.moveNumber, view, usi, .unknown⟩] } }
              (.send intent view.fouls.you index s.socketEpoch)

/-- What a view says of the move that was pending. -/
def Session.judge (s : Session) (prior : Option View) (intent : Option Intent) (view : View) : Session :=
  match prior, intent, s.pendingIndex with
  | some prior, some intent, some index =>
    if intent.moveNumber < view.moveNumber ∧ view.fouls.you = prior.fouls.you then s.setFeedback index .accepted
    else if view.moveNumber = intent.moveNumber ∧ prior.fouls.you < view.fouls.you then s.setFeedback index .foul
    else s
  | _, _, _ => s

/-- A session without a game or a record takes them from the view. -/
def Session.learn (s : Session) (view : View) : Session :=
  { s with gameId := some view.gameId, record := some (s.record.getD ⟨view.yourColor, []⟩) }

/-- The rest of `onView`: the view is offered to the gate. A view that was parsed parses to itself, so the gate is given what
came. -/
def offerView (env : Env) (s : Session) (raw : Value) (view : View) (generation : ℤ) (synchronized : Bool) : Turn :=
  match jsAcceptView env.cats s.gate raw generation synchronized with
  | (gate, .error _) => save (s.withGate gate) .done
  | (gate, .ok false) => stay (s.withGate gate)
  | (gate, .ok true) =>
    let s := (s.withGate gate).judge s.gate.view s.gate.pending view
    if view.status = .ended then { save { s with terminalSeen := true } .done with log := [.viewed view] }
    else { save s .think with log := [.viewed view] }

def onView (env : Env) (s : Session) (raw : Value) (generation : ℤ) (synchronized : Bool) : Turn :=
  if generation ≠ s.gate.generation ∨ s.connected = false then stay s
  else
    match parsePlayerView env.cats raw with
    | .error _ => stay (s.withGate (jsAcceptView env.cats s.gate raw generation synchronized).1)
    | .ok view =>
      if !env.observes view then stay s.awaitView
      else if s.gameId.any (· ≠ view.gameId) then stay s
      else if !env.validGameId view.gameId then pause s
      else if (s.record.getD ⟨view.yourColor, []⟩).color ≠ view.yourColor then pause (s.learn view)
      else offerView env (s.learn view) raw view generation synchronized

def ackOk (raw : Value) : Option Bool :=
  match raw with
  | .object fields =>
    match get fields okKey with
    | some (.bool b) => some b
    | _ => none
  | _ => none

/-- Whether a refusal counts as a foul. -/
def isFoulAck (raw : Value) : Bool :=
  match raw with
  | .object fields => stringOf (get fields reasonKey) = some foulText &&
      (safeInteger (get fields foulCountKey)).any fun n => 0 < n && n ≤ 10
  | _ => false

/-- The acknowledgement of a move, or none when it did not come in time. -/
def onMoveAck (s : Session) (sent : Sent) (value : Option Value) : Turn :=
  match value with
  | none => persist (s.withGate (s.gate.timeout sent.intent))
  | some raw =>
    match jsAcknowledge s.gate sent.intent raw with
    | (gate, .error _) => persist (s.withGate (gate.timeout sent.intent))
    | (gate, .ok false) => persist (s.withGate gate)
    | (gate, .ok true) =>
      let s := s.withGate gate
      match ackOk raw with
      | some true => persist (s.setFeedback sent.index .accepted)
      | _ => { persist (s.setFeedback sent.index (if isFoulAck raw then .foul else .unknown)) with log := [.refused sent.intent] }

/-- What follows a save. -/
def resume (env : Env) (s : Session) (late : Bool) (choice : Option Text) : Next → Turn
  | .done => stay s
  | .reconnected => joinOrSync env s true late
  | .think => maybeMove env s choice
  | .send intent fouls index epoch =>
    if epoch = s.socketEpoch ∧ s.closed = false ∧ s.connected = true then
      ⟨{ s with awaiting := s.awaiting ++ [⟨intent, index, s.socketEpoch, s.gate.generation⟩] }, [.move intent fouls], none⟩
    else persist (s.withGate (s.gate.timeout intent))
  | .close => pause s

/-! ## Runs -/

/-- What starts an operation. A queued connect or disconnect counts for the connection that it was about. -/
inductive Event
  | connect (epoch : ℕ) (late : Bool)
  | disconnect (epoch : ℕ)
  | matched (payload : Match) (fromMatch : Bool)
  | view (raw : Value) (generation : ℤ) (synchronized : Bool)
  | moveAck (k : ℕ) (value : Option Value)
  | drain
  | pause
  | finish

def handle (env : Env) (s : Session) : Event → Turn
  | .connect epoch late => if epoch = s.socketEpoch then onConnect env s late else stay s
  | .disconnect epoch => if epoch = s.socketEpoch then onDisconnect s else stay s
  | .matched payload fromMatch => onMatch env s payload fromMatch
  | .view raw generation synchronized => onView env s raw generation synchronized
  | .moveAck k value =>
    match s.awaiting[k]? with
    | none => stay s
    | some sent =>
      let s := { s with awaiting := s.awaiting.eraseIdx k }
      if sent.epoch = s.socketEpoch ∧ sent.generation = s.gate.generation ∧ s.connected = true then onMoveAck s sent value
      else stay s
  | .drain => drain s
  | .pause => BetaSession.pause s
  | .finish => ⟨s, [], some (.finished, .close)⟩

/-- The process: dead, between two operations, or in one that waits for a save. -/
inductive Proc
  | down
  | idle (s : Session)
  | saving (s : Session) (value : Stored) (next : Next)

structure World where
  disk : Stored
  proc : Proc
  log : List Entry

def World.start : World := ⟨.empty, .down, []⟩

def Turn.proc (t : Turn) : Proc :=
  match t.save with
  | none => .idle t.session
  | some (value, next) => .saving t.session value next

/-- An input: the process starts or dies, with the last save written or not; the socket changes; an operation runs; a save
is completed or fails, written or not. -/
inductive Input
  | start
  | crash (written : Bool)
  | socket (connected : Bool)
  | connecting
  | event (e : Event)
  | saved (late : Bool) (choice : Option Text)
  | failed (written : Bool)

def Session.onSocket (s : Session) (connected : Bool) : Session := { s with connected := connected && !s.closed }

def Session.onConnecting (s : Session) : Session := { s with socketEpoch := s.socketEpoch + 1 }

def World.next (env : Env) (w : World) : Input → World
  | .start =>
    match w.proc, w.disk with
    | .down, .empty => { w with proc := .idle .new }
    | .down, .active c => { w with proc := .idle (restore c) }
    | _, _ => w
  | .crash written =>
    match w.proc with
    | .saving _ value _ => { w with proc := .down, disk := if written then value else w.disk }
    | _ => { w with proc := .down }
  | .socket connected =>
    match w.proc with
    | .down => w
    | .idle s => { w with proc := .idle (s.onSocket connected) }
    | .saving s value next => { w with proc := .saving (s.onSocket connected) value next }
  | .connecting =>
    match w.proc with
    | .down => w
    | .idle s => { w with proc := .idle s.onConnecting }
    | .saving s value next => { w with proc := .saving s.onConnecting value next }
  | .event e =>
    match w.proc with
    | .idle s =>
      if s.closed then w
      else { w with proc := (handle env s e).proc, log := w.log ++ (handle env s e).log }
    | _ => w
  | .saved late choice =>
    match w.proc with
    | .saving s value next =>
      let t := resume env s late choice next
      { disk := value, proc := t.proc, log := w.log ++ .saved value :: t.log }
    | _ => w
  | .failed written =>
    match w.proc with
    | .saving s value _ => { w with proc := .idle s.close, disk := if written then value else w.disk }
    | _ => w

def World.run (env : Env) (w : World) (inputs : List Input) : World := inputs.foldl (World.next env) w

end Docich.BetaSession
