import Docich.MoveGate.View

/-!
# The two move gates

`jsCall` is a call on the gate of the worker, `pyCall` the same call on the gate of the Python module. A side is a gate
with the intents that it returned; a later call passes one of them back by its place. The sequence numbers of these
intents differ from each other, so comparing them as values is comparing them by identity.
-/

namespace Docich.MoveGate

inductive Call
  | newConnection
  | disconnect (generation : ℤ)
  | acceptView (raw : Value) (generation : ℤ) (synchronized : Bool)
  | prepareMove (usi : Value)
  | acknowledge (intent : ℕ) (raw : Value)
  | timeout (intent : ℕ)
  | requestQuiesce

/-- The fields that both gates have, over their views and intents. -/
structure Gate (V I : Type) where
  generation : ℤ
  connected : Bool
  needsSync : Bool
  quiescing : Bool
  view : Option V
  pending : Option I
  sequence : ℤ
  ackedSequence : ℤ
  attempted : List Text
  foulFloor : ℤ

def Gate.new (V I : Type) : Gate V I := ⟨0, false, true, false, none, none, 0, 0, [], 0⟩

structure Side (V I : Type) where
  gate : Gate V I
  issued : List I

def Side.new (V I : Type) : Side V I := ⟨Gate.new V I, []⟩

inductive Reply (I : Type)
  | done
  | flag (b : Bool)
  | number (n : ℤ)
  | intent (i : I)
  deriving DecidableEq

/-- The intent of the worker. -/
structure Intent where
  sequence : ℤ
  generation : ℤ
  gameId : Text
  moveNumber : ℤ
  usi : Text
  payload : Text × Text
  deriving DecidableEq

/-- The intent of the module. -/
structure MoveIntent where
  sequence : ℤ
  generation : ℤ
  position : Text × Color × ℤ
  usi : Text
  deriving DecidableEq

def MoveIntent.payload (intent : MoveIntent) : Text × Text := (intent.position.1, intent.usi)

/-! ## Moves and acknowledgements -/

def plus : ℕ := '+'.toNat
def star : ℕ := '*'.toNat

def DROPPED : List ℕ := text ['P', 'L', 'N', 'S', 'G', 'B', 'R']

/-- A move between two squares, or a drop; `validMove` of the worker, and the two checks of the module. -/
def validMove : Text → Bool
  | [a, b, c, d] =>
    (isSquare [a, b] && isSquare [c, d] && [a, b] ≠ [c, d]) || (a ∈ DROPPED && b = star && isSquare [c, d])
  | [a, b, c, d, e] => isSquare [a, b] && isSquare [c, d] && e = plus && [a, b] ≠ [c, d]
  | _ => false

def usiOf (usi : Value) : Option Text :=
  match usi with
  | .string s => if validMove s then some s else none
  | _ => none

/-- What an acknowledgement says. -/
inductive Ack
  | taken
  | foul (count : ℤ)
  | error

def okKey : Text := text ['o', 'k']
def reasonKey : Text := text ['r', 'e', 'a', 's', 'o', 'n']
def foulCountKey : Text := text ['f', 'o', 'u', 'l', 'C', 'o', 'u', 'n', 't']
def errorKey : Text := text ['e', 'r', 'r', 'o', 'r']
def foulText : Text := text ['f', 'o', 'u', 'l']

/-- More fouls than the view has. -/
def foulAck (you : Option ℤ) (count : ℤ) : Result Ack :=
  match you with
  | none => .error .invalid_ack
  | some you => if count ≤ you then .error .invalid_ack else .ok (.foul count)

def jsAck (you : Option ℤ) (raw : Value) : Result Ack := do
  let raw ← fieldsOf (some raw) .invalid_ack
  match get raw okKey with
  | some (.bool true) => return .taken
  | some (.bool false) =>
    if stringOf (get raw reasonKey) = some foulText then
      let count ← integer (get raw foulCountKey) .invalid_ack 1 10
      foulAck you count
    else if stringOf (get raw reasonKey) = some errorKey ∧ (stringOf (get raw errorKey)).isSome then return .error
    else .error .invalid_ack
  | _ => .error .invalid_ack

def pyAck (you : Option ℤ) (raw : Value) : Result Ack := do
  let raw ← fieldsOf (some raw) .invalid_ack
  match get raw okKey with
  | some (.bool true) => return .taken
  | some (.bool false) =>
    if stringOf (get raw reasonKey) = some foulText then
      let count ← _integer (get raw foulCountKey) .invalid_ack 1 10
      foulAck you count
    else if stringOf (get raw reasonKey) = some errorKey then return .error
    else .error .invalid_ack
  | _ => .error .invalid_ack

section Gate

variable {V I : Type}

def Gate.acknowledged (g : Gate V I) (sequence : ℤ) : Ack → Gate V I
  | .taken => { g with ackedSequence := sequence, needsSync := true }
  | .foul count => { g with foulFloor := count, pending := none, ackedSequence := sequence, needsSync := true }
  | .error => { g with pending := none, ackedSequence := sequence, needsSync := true }

def Gate.connect (g : Gate V I) : Gate V I :=
  { g with generation := g.generation + 1, connected := true, needsSync := true }

def Gate.disconnect (g : Gate V I) (generation : ℤ) : Gate V I :=
  if generation = g.generation then { g with connected := false, needsSync := true } else g

def Gate.timeout [DecidableEq I] (g : Gate V I) (intent : I) : Gate V I :=
  if g.pending = some intent then { g with needsSync := true } else g

/-- The view is there, and the intents and attempts of an older position are gone. -/
def Gate.take (g : Gate V I) (view : V) (you : ℤ) (advanced cleared : Bool) : Gate V I :=
  { g with
    pending := if advanced || cleared then none else g.pending
    attempted := if advanced then [] else g.attempted
    foulFloor := if advanced then you else g.foulFloor
    view := some view
    needsSync := false }

def Gate.attempt (g : Gate V I) (intent : I) (usi : Text) : Gate V I :=
  { g with sequence := g.sequence + 1, attempted := g.attempted ++ [usi], pending := some intent }

end Gate

/-! ## The gate of the worker -/

abbrev JsGate := Gate View Intent

/-- Whether a view is newer than the one before; a conflict raises. -/
def jsNewer (old : Option View) (view : View) : Result Bool :=
  match old with
  | none => .ok true
  | some old =>
    if old.gameId ≠ view.gameId then if old.status = .playing then .error .unexpected_game else .ok true
    else if view.yourColor ≠ old.yourColor then .error .changed_color
    else if view.moveNumber < old.moveNumber ∨ view.fouls.you < old.fouls.you ∨ view.fouls.opponent < old.fouls.opponent then
      .ok false
    else if old.status = .ended ∧ view.status ≠ .ended then .ok false
    else if view.status = .playing ∧ view.moveNumber = old.moveNumber ∧
        (view.turn ≠ old.turn ∨ view.yourPieces ≠ old.yourPieces ∨ view.yourHand ≠ old.yourHand) then
      .error .conflicting_position
    else .ok true

def jsTake (g : JsGate) (view : View) (synchronized : Bool) : JsGate × Bool :=
  let sameGame := g.view.any fun old => old.gameId = view.gameId
  let advanced := g.view.all fun old => old.gameId ≠ view.gameId || old.moveNumber < view.moveNumber
  let foulProved := g.view.any fun old => old.gameId = view.gameId && old.fouls.you < view.fouls.you
  if g.needsSync && !synchronized && !(sameGame && advanced) then (g, false)
  else if sameGame && view.fouls.you < g.foulFloor then (g, false)
  else (g.take view view.fouls.you advanced (foulProved || view.status = .ended), true)

def jsAcceptCurrentView (cats : Categories) (g : JsGate) (raw : Value) (synchronized : Bool) : JsGate × Result Bool :=
  match raw with
  | .null =>
    if !synchronized || g.view.any (fun view => view.status = .playing) || g.pending.isSome then
      ({ g with needsSync := true }, .ok false)
    else ({ g with needsSync := false }, .ok true)
  | raw =>
    match parsePlayerView cats raw with
    | .error code => ({ g with needsSync := true }, .error code)
    | .ok view =>
      match jsNewer g.view view with
      | .error code => ({ g with needsSync := true }, .error code)
      | .ok false => (g, .ok false)
      | .ok true => ((jsTake g view synchronized).1, .ok (jsTake g view synchronized).2)

def jsAcceptView (cats : Categories) (g : JsGate) (raw : Value) (generation : ℤ) (synchronized : Bool) :
    JsGate × Result Bool :=
  if generation ≠ g.generation ∨ g.connected = false then (g, .ok false) else jsAcceptCurrentView cats g raw synchronized

def jsMoveView (g : JsGate) : Option View :=
  g.view.filter fun view => g.connected && !g.needsSync && view.status = .playing && view.turn = view.yourColor &&
    g.pending.isNone && view.fouls.you < 10

def jsCanMove (g : JsGate) : Bool := (jsMoveView g).isSome

def jsCanJoinQueue (g : JsGate) : Bool :=
  g.connected && !g.needsSync && !g.quiescing && g.pending.isNone && g.view.all fun view => view.status = .ended

def makeIntent (sequence generation : ℤ) (view : View) (usi : Text) : Intent :=
  ⟨sequence, generation, view.gameId, view.moveNumber, usi, (view.gameId, usi)⟩

def jsPrepareMove (g : JsGate) (usi : Value) : JsGate × Result Intent :=
  match jsMoveView g with
  | none => (g, .error .move_not_ready)
  | some view =>
    match usiOf usi with
    | none => (g, .error .invalid_usi)
    | some usi =>
      if usi ∈ g.attempted then (g, .error .already_attempted)
      else if MAX_INTEGER < g.sequence + 1 then (g, .error .invalid_sequence)
      else
        let intent := makeIntent (g.sequence + 1) g.generation view usi
        (g.attempt intent usi, .ok intent)

def jsAcknowledge (g : JsGate) (intent : Intent) (raw : Value) : JsGate × Result Bool :=
  if g.connected = false ∨ g.pending ≠ some intent ∨ intent.generation ≠ g.generation ∨ intent.sequence = g.ackedSequence then
    (g, .ok false)
  else
    match jsAck (g.view.map fun view => view.fouls.you) raw with
    | .error code => ({ g with needsSync := true }, .error code)
    | .ok ack => (g.acknowledged intent.sequence ack, .ok true)

abbrev JsSide := Side View Intent

def jsCall (cats : Categories) (s : JsSide) : Call → JsSide × Result (Reply Intent)
  | .newConnection =>
    if MAX_INTEGER < s.gate.generation + 1 then (s, .error .invalid_generation)
    else ({ s with gate := s.gate.connect }, .ok (.number (s.gate.generation + 1)))
  | .disconnect generation => ({ s with gate := s.gate.disconnect generation }, .ok .done)
  | .acceptView raw generation synchronized =>
    let r := jsAcceptView cats s.gate raw generation synchronized
    ({ s with gate := r.1 }, r.2.map .flag)
  | .prepareMove usi =>
    match jsPrepareMove s.gate usi with
    | (g, .ok intent) => (⟨g, s.issued ++ [intent]⟩, .ok (.intent intent))
    | (g, .error code) => ({ s with gate := g }, .error code)
  | .acknowledge intent raw =>
    match s.issued[intent]? with
    | none => (s, .ok .done)
    | some intent =>
      let r := jsAcknowledge s.gate intent raw
      ({ s with gate := r.1 }, r.2.map .flag)
  | .timeout intent =>
    match s.issued[intent]? with
    | none => (s, .ok .done)
    | some intent => ({ s with gate := s.gate.timeout intent }, .ok .done)
  | .requestQuiesce => ({ s with gate := { s.gate with quiescing := true } }, .ok .done)

/-! ## The gate of the module -/

abbrev PyGate := Gate PlayerView MoveIntent

def pyNewer (old : Option PlayerView) (view : PlayerView) : Result Bool :=
  match old with
  | none => .ok true
  | some old =>
    if old.game_id ≠ view.game_id then if old.status = .playing then .error .unexpected_game else .ok true
    else if view.color ≠ old.color then .error .changed_color
    else if view.move_number < old.move_number ∨ view.fouls.you < old.fouls.you ∨ view.fouls.opponent < old.fouls.opponent then
      .ok false
    else if old.status = .ended ∧ view.status ≠ .ended then .ok false
    else if view.status = .playing ∧ view.move_number = old.move_number ∧
        (view.pieces, view.hand, view.turn) ≠ (old.pieces, old.hand, old.turn) then .error .conflicting_position
    else .ok true

def pyTake (g : PyGate) (view : PlayerView) (synchronized : Bool) : PyGate × Bool :=
  let same_game := g.view.any fun old => old.game_id = view.game_id
  let advanced := g.view.all fun old => old.game_id ≠ view.game_id || old.move_number < view.move_number
  let foul_proved := g.view.any fun old => old.game_id = view.game_id && old.fouls.you < view.fouls.you
  if g.needsSync && !synchronized && !(same_game && advanced) then (g, false)
  else if same_game && view.fouls.you < g.foulFloor then (g, false)
  else (g.take view view.fouls.you advanced (foul_proved || view.status = .ended), true)

def pyAcceptCurrentView (cats : Categories) (g : PyGate) (raw : Value) (synchronized : Bool) : PyGate × Result Bool :=
  match raw with
  | .null =>
    if !synchronized || g.view.any (fun view => view.status = .playing) || g.pending.isSome then
      ({ g with needsSync := true }, .ok false)
    else ({ g with needsSync := false }, .ok true)
  | raw =>
    match parse cats raw with
    | .error code => ({ g with needsSync := true }, .error code)
    | .ok view =>
      match pyNewer g.view view with
      | .error code => ({ g with needsSync := true }, .error code)
      | .ok false => (g, .ok false)
      | .ok true => ((pyTake g view synchronized).1, .ok (pyTake g view synchronized).2)

def pyAcceptView (cats : Categories) (g : PyGate) (raw : Value) (generation : ℤ) (synchronized : Bool) :
    PyGate × Result Bool :=
  if generation ≠ g.generation ∨ g.connected = false then (g, .ok false) else pyAcceptCurrentView cats g raw synchronized

def pyMoveView (g : PyGate) : Option PlayerView :=
  g.view.filter fun view => g.connected && !g.needsSync && view.status = .playing && view.turn = view.color &&
    g.pending.isNone && view.fouls.you < 10

/-- The guard of `prepare_move`. -/
def pyCanMove (g : PyGate) : Bool := (pyMoveView g).isSome

def pyCanJoinQueue (g : PyGate) : Bool :=
  g.connected && !g.needsSync && !g.quiescing && g.pending.isNone && g.view.all fun view => view.status = .ended

def pyPrepareMove (g : PyGate) (usi : Value) : PyGate × Result MoveIntent :=
  match pyMoveView g with
  | none => (g, .error .move_not_ready)
  | some view =>
    match usiOf usi with
    | none => (g, .error .invalid_usi)
    | some usi =>
      if usi ∈ g.attempted then (g, .error .already_attempted)
      else
        let intent : MoveIntent := ⟨g.sequence + 1, g.generation, (view.game_id, view.color, view.move_number), usi⟩
        (g.attempt intent usi, .ok intent)

/-- An invalid acknowledgement leaves the gate as it is. -/
def pyAcknowledge (g : PyGate) (intent : MoveIntent) (raw : Value) : PyGate × Result Bool :=
  if g.connected = false ∨ intent.generation ≠ g.generation ∨ g.pending ≠ some intent ∨ intent.sequence = g.ackedSequence then
    (g, .ok false)
  else
    match pyAck (g.view.map fun view => view.fouls.you) raw with
    | .error code => (g, .error code)
    | .ok ack => (g.acknowledged intent.sequence ack, .ok true)

abbrev PySide := Side PlayerView MoveIntent

def pyCall (cats : Categories) (s : PySide) : Call → PySide × Result (Reply MoveIntent)
  | .newConnection => ({ s with gate := s.gate.connect }, .ok (.number (s.gate.generation + 1)))
  | .disconnect generation => ({ s with gate := s.gate.disconnect generation }, .ok .done)
  | .acceptView raw generation synchronized =>
    let r := pyAcceptView cats s.gate raw generation synchronized
    ({ s with gate := r.1 }, r.2.map .flag)
  | .prepareMove usi =>
    match pyPrepareMove s.gate usi with
    | (g, .ok intent) => (⟨g, s.issued ++ [intent]⟩, .ok (.intent intent))
    | (g, .error code) => ({ s with gate := g }, .error code)
  | .acknowledge intent raw =>
    match s.issued[intent]? with
    | none => (s, .ok .done)
    | some intent =>
      let r := pyAcknowledge s.gate intent raw
      ({ s with gate := r.1 }, r.2.map .flag)
  | .timeout intent =>
    match s.issued[intent]? with
    | none => (s, .ok .done)
    | some intent => ({ s with gate := s.gate.timeout intent }, .ok .done)
  | .requestQuiesce => ({ s with gate := { s.gate with quiescing := true } }, .ok .done)

end Docich.MoveGate
