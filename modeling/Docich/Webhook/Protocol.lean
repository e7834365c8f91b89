import Docich.MoveGate.View

/-!
# The payloads of the webhook

- `validateWebhookPayload`, `validateGameEndPayload`, `validateOfflineReviewPayload`: what is accepted of a JSON value;
- `parsePosition`, `parseSfen`: the positions in it;
- `validateProfile`: the profile of a brain, from the environment or from the storage.
-/

namespace Docich.Webhook

open MoveGate (Value Text Fields text get keysOf stringOf safeInteger utf16Length isTrimmed)

inductive Code
  | invalid_request
  | invalid_identity
  | invalid_color
  | invalid_ply
  | invalid_positions
  | invalid_game
  | unsupported_game_type
  | invalid_players
  | invalid_seat
  | invalid_base_ply
  | invalid_ply_range
  | incomplete_positions
  | unexpected_position_key
  | invalid_position
  | invalid_sfen
  | not_your_turn
  | invalid_internal_request
  | request_id_reused
  | session_already_initialized
  | game_metadata_mismatch
  | session_missing
  | seat_mismatch
  | base_ply_mismatch
  | stale_ply
  | no_observed_move
  | state_failure
  | invalid_brain_profile
  | invalid_game_end
  | invalid_offline_review_export
  | offline_review_not_found
  | game_end_conflict
  | game_already_ended
  | bot_identity_mismatch
  | brain_version_mismatch
  deriving DecidableEq

structure ProtocolFault where
  status : ℕ
  code : Code

abbrev Result := Except ProtocolFault

def fault {α : Type} (status : ℕ) (code : Code) : Result α := .error ⟨status, code⟩

def require (c : Bool) (status : ℕ) (code : Code) : Result Unit := if c then .ok () else fault status code

inductive Color
  | b
  | w
  deriving DecidableEq

def Color.char : Color → ℕ
  | .b => 'b'.toNat
  | .w => 'w'.toNat

/-- The sign of own moves. -/
def Color.sign : Color → ℕ
  | .b => '+'.toNat
  | .w => '-'.toNat

def record : Option Value → Option Fields
  | some (.object fields) => some fields
  | _ => none

def visibleId (value : Option Value) (max : ℕ) : Option Text :=
  match stringOf value with
  | some s => if 0 < s.length ∧ s.length ≤ max ∧ s.all (fun c => 0x21 ≤ c && c ≤ 0x7e) then some s else none
  | none => none

def int (value : Option Value) (min max : ℕ) : Option ℕ :=
  match safeInteger value with
  | some n => if (min : ℤ) ≤ n ∧ n ≤ max then some n.toNat else none
  | none => none

def MAX_SAFE_INTEGER : ℕ := 2 ^ 53 - 1

def isDigit (c : ℕ) : Bool := 48 ≤ c && c ≤ 57

def isPositiveDigit (c : ℕ) : Bool := 49 ≤ c && c ≤ 57

/-- `/^[1-9]\d*$/` -/
def isPositiveNumber : Text → Bool
  | [] => false
  | c :: rest => isPositiveDigit c && rest.all isDigit

/-! ## Positions -/

def oneOf (letters : List Char) (c : ℕ) : Bool := c ∈ letters.map Char.toNat

/-- `split(/\s+/)` of a trimmed text -/
def words (s : Text) : List Text := (s.splitOnP isTrimmed).filter (· ≠ [])

/-- `/^(?:(?:[1-9]\d*)?[PLNSGBRplnsgbr])+$/`, with the digits that were read before it -/
def isHandFrom : Text → Text → Bool
  | _, [] => false
  | digits, c :: rest =>
    if isDigit c then isHandFrom (digits ++ [c]) rest
    else (digits = [] || isPositiveNumber digits) &&
      oneOf ['P', 'L', 'N', 'S', 'G', 'B', 'R', 'p', 'l', 'n', 's', 'g', 'b', 'r'] c && (rest = [] || isHandFrom [] rest)

def rowCells : ℕ → Text → Option ℕ
  | cells, [] => some cells
  | cells, [c] =>
    if isPositiveDigit c then some (cells + (c - 48))
    else if oneOf ['P', 'L', 'N', 'S', 'G', 'B', 'R', 'K', 'p', 'l', 'n', 's', 'g', 'b', 'r', 'k'] c then some (cells + 1) else none
  | cells, c :: d :: rest =>
    if isPositiveDigit c then if 9 < cells + (c - 48) then none else rowCells (cells + (c - 48)) (d :: rest)
    else if c = '+'.toNat then
      if oneOf ['P', 'L', 'N', 'S', 'B', 'R', 'p', 'l', 'n', 's', 'b', 'r'] d ∧ cells < 9 then rowCells (cells + 1) rest else none
    else if oneOf ['P', 'L', 'N', 'S', 'G', 'B', 'R', 'K', 'p', 'l', 'n', 's', 'g', 'b', 'r', 'k'] c ∧ cells < 9 then
      rowCells (cells + 1) (d :: rest)
    else none

/-- The side to move. -/
def parseSfen (sfen : Text) : Result Color := do
  require (utf16Length sfen ≤ 160) 400 .invalid_sfen
  match words sfen with
  | [board, turn, hand, number] =>
    require (isPositiveNumber number) 400 .invalid_sfen
    require (hand = ['-'.toNat] || isHandFrom [] hand) 400 .invalid_sfen
    let rows := board.splitOn '/'.toNat
    require (rows.length = 9 && rows.all fun row => rowCells 0 row = some 9) 400 .invalid_sfen
    if turn = [Color.char .b] then pure .b else if turn = [Color.char .w] then pure .w else fault 400 .invalid_sfen
  | _ => fault 400 .invalid_sfen

structure Pair (α : Type) where
  b : α
  w : α
  deriving DecidableEq

structure Position where
  sfen : Text
  lastMove : Option Text
  lastInfo : Option ℕ
  lastCapture : Option Text
  wasPromotion : Option Bool
  fouls : Option (Pair ℕ)
  times : Option (Pair ℚ)
  byoyomiActive : Option (Pair Bool)
  deriving DecidableEq

/-- The two letters of a piece. -/
def csaPieces : List Text :=
  [['F', 'U'], ['K', 'Y'], ['K', 'E'], ['G', 'I'], ['K', 'I'], ['K', 'A'], ['H', 'I'], ['O', 'U'], ['T', 'O'], ['N', 'Y'], ['N', 'K'],
    ['N', 'G'], ['U', 'M'], ['R', 'Y']].map text

/-- `CSA_MOVE` -/
def isCsaMove (s : Text) : Bool :=
  match s with
  | sign :: a :: b :: c :: d :: piece =>
    oneOf ['+', '-'] sign &&
      ([a, b, c, d].all isPositiveDigit && piece ∈ csaPieces ||
        [a, b] = text ['0', '0'] && [c, d].all isPositiveDigit && piece ∈ csaPieces.take 7 ||
        [a, b] = text ['0', '0'] && ([c, d] = text ['0', '0'] || [c, d].all isPositiveDigit) && piece = text ['Z', 'Z'] ||
        [a, b, c, d] = text ['0', '0', '0', '0'] && piece = text ['T', 'O', 'R', 'Y', 'O'])
  | _ => false

/-- A field that may be missing. -/
def optional {α : Type} (value : Option Value) (parse : Value → Option α) : Result (Option α) :=
  match value with
  | none => .ok none
  | some v =>
    match parse v with
    | some x => .ok (some x)
    | none => fault 400 .invalid_position

def pairOf {α : Type} (parse : Option Value → Option α) (v : Value) : Option (Pair α) := do
  let fields ← record (some v)
  let b ← (get fields (text ['b'])).bind (parse ∘ some)
  let w ← (get fields (text ['w'])).bind (parse ∘ some)
  pure ⟨b, w⟩

def numberOf : Option Value → Option ℚ
  | some (.int n) => some n
  | some (.float x) => x
  | _ => none

def boolOf : Option Value → Option Bool
  | some (.bool b) => some b
  | _ => none

def isCapture (s : Text) : Bool := s.length = 1 && s.all (oneOf ['P', 'L', 'N', 'S', 'G', 'B', 'R', 'K']) || s ∈ csaPieces

/-- `parsePosition`; which of its fields is invalid is not told apart. -/
def parsePosition (value : Value) : Result Position := do
  let some fields := record (some value) | fault 400 .invalid_position
  let some sfen := stringOf (get fields (text ['s', 'f', 'e', 'n'])) | fault 400 .invalid_position
  let _ ← parseSfen sfen
  let lastMove ← optional (get fields (text ['l', 'a', 's', 't', 'M', 'o', 'v', 'e'])) fun v =>
    (stringOf (some v)).filter isCsaMove
  let lastInfo ← optional (get fields (text ['l', 'a', 's', 't', 'I', 'n', 'f', 'o'])) fun v => int (some v) 0 4
  let lastCapture ← optional (get fields (text ['l', 'a', 's', 't', 'C', 'a', 'p', 't', 'u', 'r', 'e'])) fun v =>
    (stringOf (some v)).filter fun s => s = [] || isCapture s
  let wasPromotion ← optional (get fields (text ['w', 'a', 's', 'P', 'r', 'o', 'm', 'o', 't', 'i', 'o', 'n'])) fun v => boolOf (some v)
  let fouls ← optional (get fields (text ['f', 'o', 'u', 'l', 's'])) (pairOf fun v => int v 0 1000)
  let times ← optional (get fields (text ['t', 'i', 'm', 'e', 's'])) (pairOf fun v => (numberOf v).filter fun x => 0 ≤ x && x ≤ 86400)
  let byoyomiActive ← optional (get fields (text ['b', 'y', 'o', 'y', 'o', 'm', 'i', 'A', 'c', 't', 'i', 'v', 'e'])) (pairOf boolOf)
  pure ⟨sfen, lastMove, lastInfo, lastCapture.filter (· ≠ []), wasPromotion, fouls, times, byoyomiActive⟩

/-! ## Requests -/

structure GameMetadata where
  type : Text
  requiredPlayers : Pair ℕ
  deriving DecidableEq

/-- A first request brings the game, a later one the ply that it goes on from. -/
inductive Basis
  | game (game : GameMetadata)
  | base (basePly : ℕ)

structure WebhookPayload where
  requestId : Text
  gameId : Text
  color : Color
  number : ℕ
  ply : ℕ
  basis : Basis
  /-- The positions, each with its ply, in the order of the plies. -/
  positions : List (ℕ × Position)

/-- `String(index)` -/
def key (index : ℕ) : Text := text (Nat.toDigits 10 index)

def Basis.start : Basis → ℕ
  | .game _ => 0
  | .base basePly => basePly + 1

/-- The positions at these plies. -/
def parsePositions (positions : Fields) : List ℕ → Result (List (ℕ × Position))
  | [] => .ok []
  | index :: rest => do
    let some value := get positions (key index) | fault 400 .incomplete_positions
    let position ← parsePosition value
    let rest ← parsePositions positions rest
    pure ((index, position) :: rest)

def parsePlayers (value : Option Value) : Result (Pair ℕ) :=
  match (record value).bind fun fields => do
    let b ← int (get fields (text ['b'])) 1 MAX_SAFE_INTEGER
    let w ← int (get fields (text ['w'])) 1 MAX_SAFE_INTEGER
    pure (Pair.mk b w) with
  | some players => .ok players
  | none => fault 400 .invalid_players

def Pair.at {α : Type} (p : Pair α) : Color → α
  | .b => p.b
  | .w => p.w

/-- `ついたて`, the one type of a game that is supported. -/
def supportedType : Text := text ['つ', 'い', 'た', 'て']

def parseGame (value : Value) (color : Color) (number : ℕ) : Result GameMetadata := do
  let some fields := record (some value) | fault 400 .invalid_game
  let some type := stringOf (get fields (text ['t', 'y', 'p', 'e'])) | fault 400 .invalid_game
  require (type = supportedType) 422 .unsupported_game_type
  let requiredPlayers ← parsePlayers (get fields (text ['r', 'e', 'q', 'u', 'i', 'r', 'e', 'd', 'P', 'l', 'a', 'y', 'e', 'r', 's']))
  require (requiredPlayers.b = 1 && requiredPlayers.w = 1) 400 .invalid_players
  require (number < requiredPlayers.at color) 400 .invalid_seat
  pure ⟨type, requiredPlayers⟩

/-- The game, or the ply that the request goes on from; not both. -/
def parseBasis (fields : Fields) (color : Color) (number : ℕ) : Result Basis :=
  let basePly := get fields (text ['b', 'a', 's', 'e', 'P', 'l', 'y'])
  match get fields (text ['g', 'a', 'm', 'e']) with
  | some game => do
    require basePly.isNone 400 .invalid_game
    let game ← parseGame game color number
    pure (.game game)
  | none =>
    match int basePly 0 10000 with
    | some basePly => .ok (.base basePly)
    | none => fault 400 .invalid_base_ply

structure Identity where
  requestId : Text
  gameId : Text

def extractRequestIdentity (value : Value) : Result Identity := do
  let some fields := record (some value) | fault 400 .invalid_request
  let some requestId := visibleId (get fields (text ['r', 'e', 'q', 'u', 'e', 's', 't', 'I', 'd'])) 200 | fault 400 .invalid_identity
  let some gameId := visibleId (get fields (text ['g', 'a', 'm', 'e', 'I', 'd'])) 128 | fault 400 .invalid_identity
  pure ⟨requestId, gameId⟩

def colorOf (value : Option Value) : Option Color :=
  match stringOf value with
  | some s => if s = [Color.char .b] then some .b else if s = [Color.char .w] then some .w else none
  | none => none

def validateWebhookPayload (value : Value) : Result WebhookPayload := do
  let identity ← extractRequestIdentity value
  let some fields := record (some value) | fault 400 .invalid_request
  let some color := colorOf (get fields (text ['c', 'o', 'l', 'o', 'r'])) | fault 400 .invalid_color
  let some number := int (get fields (text ['n', 'u', 'm', 'b', 'e', 'r'])) 0 MAX_SAFE_INTEGER | fault 400 .invalid_ply
  let some ply := int (get fields (text ['p', 'l', 'y'])) 0 10000 | fault 400 .invalid_ply
  let some positions := record (get fields (text ['p', 'o', 's', 'i', 't', 'i', 'o', 'n', 's'])) | fault 400 .invalid_positions
  let basis ← parseBasis fields color number
  require (basis.start ≤ ply) 409 .invalid_ply_range
  require ((keysOf positions).length = ply - basis.start + 1) 400 .incomplete_positions
  let positions ← parsePositions positions (List.range' basis.start (ply - basis.start + 1))
  pure ⟨identity.requestId, identity.gameId, color, number, ply, basis, positions⟩

/-- The position at the ply of the request; it must be the turn of its color. -/
def parseCurrentTurn (payload : WebhookPayload) : Result Position :=
  match payload.positions.lookup payload.ply with
  | none => fault 400 .invalid_request
  | some current => do
    let turn ← parseSfen current.sfen
    require (turn = payload.color) 409 .not_your_turn
    pure current

inductive GameResult
  | Checkmate
  | LossByFoul
  | Draw
  | Resign
  | TimeUp
  | WinByTry

def GameResult.text : GameResult → Text
  | .Checkmate => MoveGate.text ['C', 'h', 'e', 'c', 'k', 'm', 'a', 't', 'e']
  | .LossByFoul => MoveGate.text ['L', 'o', 's', 's', 'B', 'y', 'F', 'o', 'u', 'l']
  | .Draw => MoveGate.text ['D', 'r', 'a', 'w']
  | .Resign => MoveGate.text ['R', 'e', 's', 'i', 'g', 'n']
  | .TimeUp => MoveGate.text ['T', 'i', 'm', 'e', 'U', 'p']
  | .WinByTry => MoveGate.text ['W', 'i', 'n', 'B', 'y', 'T', 'r', 'y']

def GAME_END_RESULTS : List GameResult := [.Checkmate, .LossByFoul, .Draw, .Resign, .TimeUp, .WinByTry]

structure GameEnd where
  gameId : Text
  param : Text
  result : GameResult
  winner : Option Color

/-- The keys of a record are these. -/
def hasKeys (fields : Fields) (keys : List Text) : Bool :=
  (keysOf fields).length = keys.length && keys.all fun k => k ∈ keysOf fields

def winnerOf : Option Value → Option (Option Color)
  | some .null => some none
  | value => (colorOf value).map some

def validateGameEndPayload (value : Value) : Result GameEnd :=
  let parsed : Option GameEnd := do
    let fields ← record (some value)
    guard (hasKeys fields [text ['g', 'a', 'm', 'e', 'I', 'd'], text ['p', 'a', 'r', 'a', 'm'], text ['r', 'e', 's', 'u', 'l', 't'],
      text ['t', 'y', 'p', 'e'], text ['w', 'i', 'n', 'n', 'e', 'r']])
    guard (stringOf (get fields (text ['t', 'y', 'p', 'e'])) = some (text ['g', 'a', 'm', 'e', '_', 'e', 'n', 'd']))
    let gameId ← visibleId (get fields (text ['g', 'a', 'm', 'e', 'I', 'd'])) 128
    let param ← stringOf (get fields (text ['p', 'a', 'r', 'a', 'm']))
    let name ← stringOf (get fields (text ['r', 'e', 's', 'u', 'l', 't']))
    let result ← GAME_END_RESULTS.find? (·.text = name)
    let winner ← winnerOf (get fields (text ['w', 'i', 'n', 'n', 'e', 'r']))
    pure ⟨gameId, param, result, winner⟩
  match parsed with
  | some e => .ok e
  | none => fault 400 .invalid_game_end

structure ReviewQuery where
  gameId : Text
  fromPly : ℕ
  limit : ℕ

def validateOfflineReviewPayload (value : Value) : Result ReviewQuery :=
  let parsed : Option ReviewQuery := do
    let fields ← record (some value)
    guard (hasKeys fields [text ['f', 'r', 'o', 'm', 'P', 'l', 'y'], text ['g', 'a', 'm', 'e', 'I', 'd'], text ['l', 'i', 'm', 'i', 't'],
      text ['t', 'y', 'p', 'e']])
    guard (stringOf (get fields (text ['t', 'y', 'p', 'e'])) = some (text ['o', 'f', 'f', 'l', 'i', 'n', 'e', '_', 'r', 'e', 'v', 'i', 'e',
      'w', '_', 'e', 'x', 'p', 'o', 'r', 't']))
    let gameId ← visibleId (get fields (text ['g', 'a', 'm', 'e', 'I', 'd'])) 128
    let fromPly ← int (get fields (text ['f', 'r', 'o', 'm', 'P', 'l', 'y'])) 0 10000
    let limit ← int (get fields (text ['l', 'i', 'm', 'i', 't'])) 1 100
    pure ⟨gameId, fromPly, limit⟩
  match parsed with
  | some q => .ok q
  | none => fault 400 .invalid_offline_review_export

/-! ## Profiles -/

inductive Policy
  | legacy
  /-- The weights in the order of `FEATURE_NAMES`. -/
  | linear (weights : List ℚ) (exploration : ℚ)

structure Profile where
  id : Text
  policy : Policy

def FEATURE_NAMES : List Text :=
  [['a', 'd', 'v', 'a', 'n', 'c', 'e'], ['c', 'e', 'n', 't', 'r', 'a', 'l', 'i', 't', 'y'],
    ['p', 'r', 'o', 'm', 'o', 't', 'i', 'o', 'n'], ['d', 'r', 'o', 'p'], ['k', 'i', 'n', 'g', 'M', 'o', 'v', 'e'],
    ['d', 'i', 's', 't', 'a', 'n', 'c', 'e'], ['r', 'e', 'p', 'e', 'a', 't']].map text

def isWord (c : ℕ) : Bool := isDigit c || (65 ≤ c && c ≤ 90) || (97 ≤ c && c ≤ 122)

/-- `/^[A-Za-z0-9][A-Za-z0-9._-]{0,63}$/` -/
def isProfileId (s : Text) : Bool :=
  s.head?.any isWord && s.length ≤ 64 && s.all fun c => isWord c || oneOf ['.', '_', '-'] c

def legacyText : Text := text ['l', 'e', 'g', 'a', 'c', 'y', '-', 'v', '1']
def linearText : Text := text ['l', 'i', 'n', 'e', 'a', 'r', '-', 'v', '1']
def schemaVersionText : Text := text ['s', 'c', 'h', 'e', 'm', 'a', 'V', 'e', 'r', 's', 'i', 'o', 'n']
def idText : Text := text ['i', 'd']
def policyText : Text := text ['p', 'o', 'l', 'i', 'c', 'y']
def weightsText : Text := text ['w', 'e', 'i', 'g', 'h', 't', 's']
def explorationText : Text := text ['e', 'x', 'p', 'l', 'o', 'r', 'a', 't', 'i', 'o', 'n']

def validateWeights (weights : Fields) (names : List Text) : Option (List ℚ) :=
  names.mapM fun name => (numberOf (get weights name)).filter fun x => -10 ≤ x && x ≤ 10

def validateProfile (raw : Value) : Option Profile := do
  let fields ← record (some raw)
  guard (numberOf (get fields schemaVersionText) = some 1)
  let id ← (stringOf (get fields idText)).filter isProfileId
  if stringOf (get fields policyText) = some legacyText then pure ⟨id, .legacy⟩
  else
    guard (stringOf (get fields policyText) = some linearText)
    let weights ← record (get fields weightsText)
    let exploration ← (numberOf (get fields explorationText)).filter fun x => 0 ≤ x && x ≤ 1
    let weights ← validateWeights weights FEATURE_NAMES
    pure ⟨id, .linear weights exploration⟩

def Profile.value (p : Profile) : Value :=
  match p.policy with
  | .legacy => .object [(schemaVersionText, .int 1), (idText, .string p.id), (policyText, .string legacyText)]
  | .linear weights exploration =>
    .object [(schemaVersionText, .int 1), (idText, .string p.id), (policyText, .string linearText),
      (weightsText, .object (FEATURE_NAMES.zip (weights.map fun x => .float (some x)))), (explorationText, .float (some exploration))]

def LEGACY_PROFILE : Profile :=
  ⟨text ['o', 'b', 's', 'e', 'r', 'v', 'e', 'd', '-', 's', 'f', 'e', 'n', '-', 'h', 'e', 'u', 'r', 'i', 's', 't', 'i', 'c', '-', 'v', '1'],
    .legacy⟩

end Docich.Webhook
