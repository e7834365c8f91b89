import Docich.Webhook.Protocol

/-!
# The state of a game

- `process`, `gameEnd`, `exportReview`: the requests to a `GameState`, each one transaction;
- `after`: requests one after another.

The keys of the storage are apart by their names, so each kind is a map of its own. The brain is a parameter: what it chooses,
and whether it raises. So are the digests.
-/

namespace Docich.Webhook

open MoveGate (Value Text text get)

/-! ## The storage -/

abbrev Seat := Color × ℕ

def WebhookPayload.seat (payload : WebhookPayload) : Seat := (payload.color, payload.number)

structure Decision where
  brainVersion : Text
  profileId : Text
  deriving DecidableEq

structure Session where
  gameId : Text
  color : Color
  number : ℕ
  game : GameMetadata
  lastPly : ℕ
  firstObservedPly : ℕ
  botIdHash : Text
  brainVersion : Text
  brainVersions : List Text
  profileHashes : List Text
  recentOwnMoves : List Text
  lastIssuedMove : Text
  /-- A profile as it is stored. -/
  brainProfile : Value
  lastDecision : Decision
  rejectedMoves : List Text

structure Game where
  metadata : GameMetadata
  brainProfile : Value

/-- An answer; a move with the decision behind it. -/
inductive Outcome
  | move (move : Text) (decision : Decision)
  | refused (status : ℕ) (code : Code)
  deriving DecidableEq

structure Receipt where
  requestId : Text
  bodyHash : Text
  botIdHash : Text
  outcome : Outcome

inductive ReviewStatus
  | missing_kifu
  | ambiguous_self_seat
  | unmatched_bot
  | game_id_mismatch
  | partial_history
  | unknown_strategy_version
  | offline_only_reviewable
  | conflicting_terminal_event

structure ArchivedPositions where
  color : Color
  seat : ℕ
  throughPly : ℕ
  firstObservedPly : ℕ

structure Archive where
  gameId : Text
  brainVersion : Option Text
  profileHash : Option Text
  workerVersion : Text
  result : GameResult
  winner : Option Color
  receivedAt : Text
  param : Text
  positions : Option ArchivedPositions
  reviewStatus : ReviewStatus
  duplicateCount : ℕ
  lastDuplicateAt : Option Text
  conflictCount : ℕ
  conflictHashes : List Text
  bodyHash : Text
  botIdHash : Text

structure Conflict where
  receivedAt : Text
  result : GameResult
  winner : Option Color

structure Storage where
  receipt : Text → Option Receipt
  session : Seat → Option Session
  position : Seat → ℕ → Option Position
  game : Option Game
  terminal : Text → Option Archive
  conflict : Text → Text → Option Conflict

def Storage.empty : Storage := ⟨fun _ => none, fun _ => none, fun _ _ => none, none, fun _ => none, fun _ _ => none⟩

/-- A map with this value for this key. -/
def put {α β : Type} [DecidableEq α] (m : α → Option β) (key : α) (value : β) : α → Option β :=
  fun k => if k = key then some value else m k

/-- The positions of a seat, with these. -/
def putPositions (m : ℕ → Option Position) : List (ℕ × Position) → ℕ → Option Position
  | [] => m
  | p :: rest => putPositions (put m p.1 p.2) rest

/-! ## The brain -/

def BRAIN_VERSION : Text :=
  text ['t', 's', 'u', 'i', 't', 'a', 't', 'e', '-', 'b', 'r', 'a', 'i', 'n', '-', 'v', '1', '3']

/-- What the brain is asked for. -/
structure Question where
  current : Position
  color : Color
  gameId : Text
  ply : ℕ
  recentOwnMoves : List Text
  forbiddenMoves : List Text
  profile : Profile

inductive Chosen
  | raises
  | nothing
  | move (move : Text) (decision : Decision)

/-- The code that is not modelled here: the brain and the digests. -/
structure Env where
  choose : Question → Chosen
  digest : Text → Text
  profileHash : Profile → Text

/-- `slice(-n)` -/
def lastOf {α : Type} (n : ℕ) (l : List α) : List α := l.drop (l.length - n)

/-- `[...new Set(l)]` -/
def distinct (l : List Text) : List Text := l.eraseDups

def endsWithZZ (move : Text) : Bool := (text ['Z', 'Z']).isSuffixOf move

def ownMovesFrom (positions : List (ℕ × Position)) (color : Color) : List Text :=
  lastOf 64 ((positions.filterMap fun p => p.2.lastMove).filter fun move => move.head? = some color.sign && !endsWithZZ move)

/-- Whether the last own move was a foul. -/
def isFouled (current : Position) (color : Color) : Bool :=
  current.lastMove.any (·.head? = some color.sign) && (current.lastInfo = some 1 || current.lastInfo = some 2)

/-- `BRAIN_PROFILE_JSON`: not set, no JSON text of a length that is read, or the value in it. -/
inductive ProfileJson
  | unset
  | unreadable
  | parsed (raw : Value)

def configuredProfile : ProfileJson → Option Profile
  | .unset => validateProfile LEGACY_PROFILE.value
  | .unreadable => none
  | .parsed raw => validateProfile raw

/-! ## Moves -/

/-- What a transaction does: it raises and nothing is changed, or it answers. -/
abbrev Transaction (α : Type) := Option (Storage × α)

def conflicts (s : Storage) (code : Code) : Transaction Outcome := some (s, .refused 409 code)

section

variable (env : Env)

/-- The first move of a seat. The profile is the one of the game, or the configured one for a new game. -/
def initialize_ (s : Storage) (payload : WebhookPayload) (metadata : GameMetadata) (current : Position) (configured : ProfileJson)
    (botIdHash : Text) : Transaction Outcome :=
  let profile := match s.game with
    | none => configuredProfile configured
    | some game => validateProfile game.brainProfile
  match profile with
  | none => some (s, .refused 503 .invalid_brain_profile)
  | some profile =>
    let recentOwnMoves := ownMovesFrom payload.positions payload.color
    match env.choose ⟨current, payload.color, payload.gameId, payload.ply, recentOwnMoves, [], profile⟩ with
    | .raises => none
    | .nothing => some (s, .refused 422 .no_observed_move)
    | .move move decision =>
      let seat := payload.seat
      some
        ({ s with
            position := fun k => if k = seat then putPositions (s.position seat) payload.positions else s.position k
            game := some (s.game.getD ⟨metadata, profile.value⟩)
            session := put s.session seat
              { gameId := payload.gameId
                color := payload.color
                number := payload.number
                game := metadata
                lastPly := payload.ply
                firstObservedPly := 0
                botIdHash := botIdHash
                brainVersion := decision.brainVersion
                brainVersions := [decision.brainVersion]
                profileHashes := [env.profileHash profile]
                recentOwnMoves := recentOwnMoves
                lastIssuedMove := move
                brainProfile := profile.value
                lastDecision := decision
                rejectedMoves := [] } },
          .move move decision)

/-- A later move of a seat. -/
def append_ (s : Storage) (payload : WebhookPayload) (position : Position) (current : Session) (botIdHash : Text) :
    Transaction Outcome :=
  match validateProfile current.brainProfile with
  | none => some (s, .refused 503 .invalid_brain_profile)
  | some profile =>
    if current.brainVersion ≠ BRAIN_VERSION ∨ distinct current.brainVersions ≠ [BRAIN_VERSION] then conflicts s .brain_version_mismatch
    else if payload.ply ≤ current.lastPly then conflicts s .stale_ply
    else
      let recentOwnMoves := lastOf 64 (current.recentOwnMoves ++ ownMovesFrom payload.positions payload.color)
      let rejectedMoves :=
        if isFouled position payload.color then lastOf 64 (distinct (current.rejectedMoves ++ [current.lastIssuedMove])) else []
      match env.choose ⟨position, payload.color, payload.gameId, payload.ply, recentOwnMoves, rejectedMoves, profile⟩ with
      | .raises => none
      | .nothing => some (s, .refused 422 .no_observed_move)
      | .move move decision =>
        let seat := payload.seat
        some
          ({ s with
              position := fun k => if k = seat then putPositions (s.position seat) payload.positions else s.position k
              session := put s.session seat
                { current with
                  botIdHash := botIdHash
                  brainVersions := lastOf 8 (distinct (current.brainVersions ++ [decision.brainVersion]))
                  profileHashes := lastOf 8 (distinct (current.profileHashes ++ [env.profileHash profile]))
                  lastPly := payload.ply
                  recentOwnMoves := recentOwnMoves
                  lastIssuedMove := move
                  brainProfile := profile.value
                  lastDecision := decision
                  rejectedMoves := rejectedMoves } },
            .move move decision)

/-- A request for a move, with the hashes of its caller and the profile of the deployment. -/
structure ProcessInput where
  payload : Value
  bodyHash : Text
  botIdHash : Text
  configured : ProfileJson

/-- The outcome of a request that is well formed, and for which there is no receipt. -/
def answer (s : Storage) (input : ProcessInput) (payload : WebhookPayload) (position : Position) : Transaction Outcome :=
  let current := s.session payload.seat
  if (s.terminal input.botIdHash).isSome then conflicts s .game_already_ended
  else
    match payload.basis, current with
    | .game _, some _ => conflicts s .session_already_initialized
    | .game metadata, none =>
      if s.game.any fun game => game.metadata ≠ metadata then conflicts s .game_metadata_mismatch
      else initialize_ env s payload metadata position input.configured input.botIdHash
    | .base _, none => conflicts s .session_missing
    | .base basePly, some current =>
      if current.gameId ≠ payload.gameId ∨ current.color ≠ payload.color ∨ current.number ≠ payload.number then conflicts s .seat_mismatch
      else if current.botIdHash ≠ input.botIdHash then conflicts s .bot_identity_mismatch
      else if basePly ≠ current.lastPly then conflicts s .base_ply_mismatch
      else append_ env s payload position current input.botIdHash

/-- Refusals that have selected no move, and may be asked for again. -/
def Outcome.isRetried : Outcome → Bool
  | .refused 503 .invalid_brain_profile => true
  | .refused _ .brain_version_mismatch => true
  | .refused _ .bot_identity_mismatch => true
  | _ => false

/-- A valid payload, with the position at its turn. -/
def parseMove (value : Value) : Result (WebhookPayload × Position) := do
  let payload ← validateWebhookPayload value
  let position ← parseCurrentTurn payload
  pure (payload, position)

def receiptOf (input : ProcessInput) (identity : Identity) (outcome : Outcome) : Receipt :=
  ⟨identity.requestId, input.bodyHash, input.botIdHash, outcome⟩

/-- The storage with the receipt of an outcome. -/
def putReceipt (s : Storage) (input : ProcessInput) (identity : Identity) (outcome : Outcome) : Storage :=
  { s with receipt := put s.receipt (env.digest identity.requestId) (receiptOf input identity outcome) }

/-- A request that no receipt answers. -/
def freshTransaction (s : Storage) (input : ProcessInput) (identity : Identity) : Transaction Outcome :=
  match parseMove input.payload with
  | .error e => some (putReceipt env s input identity (.refused e.status e.code), .refused e.status e.code)
  | .ok (payload, position) =>
    match answer env s input payload position with
    | none => none
    | some (s, outcome) => if outcome.isRetried then some (s, outcome) else some (putReceipt env s input identity outcome, outcome)

/-- The transaction of a request for a move. -/
def processTransaction (s : Storage) (input : ProcessInput) (identity : Identity) : Transaction Outcome :=
  match s.receipt (env.digest identity.requestId) with
  | none => freshTransaction env s input identity
  | some old =>
    if old.requestId ≠ identity.requestId ∨ old.bodyHash ≠ input.bodyHash then conflicts s .request_id_reused
    else if old.outcome = .refused 409 .bot_identity_mismatch then freshTransaction env s input identity
    else if old.botIdHash ≠ input.botIdHash then conflicts s .request_id_reused
    else some (s, old.outcome)

/-- The answer when the transaction is through or has raised. -/
def settle {α : Type} (s : Storage) (failed : α) (t : Transaction α) : Storage × α := t.getD (s, failed)

def process (s : Storage) (input : ProcessInput) : Storage × Outcome :=
  match extractRequestIdentity input.payload with
  | .error e => (s, .refused e.status e.code)
  | .ok identity => settle s (.refused 500 .state_failure) (processTransaction env s input identity)

/-! ## The end of a game -/

structure GameEndInput where
  payload : Value
  bodyHash : Text
  botIdHash : Text
  receivedAt : Text
  workerVersion : Text

/-- The seats of a bot, of those that the game has. -/
def matchesOf (s : Storage) (botIdHash : Text) : List (Seat × Session) :=
  let required := s.game.elim ⟨1, 1⟩ fun game => game.metadata.requiredPlayers
  let seats := [Color.b, Color.w].flatMap fun color => (List.range (min (required.at color) 16)).map fun number => (color, number)
  seats.filterMap fun seat => ((s.session seat).filter (·.botIdHash = botIdHash)).map fun session => (seat, session)

def REVIEWABLE_BRAIN_VERSIONS : List Text :=
  (([1, 2, 3, 4, 5, 6, 7, 8, 9, 10].map fun n =>
    text ['t', 's', 'u', 'i', 't', 'a', 't', 'e', '-', 'b', 'r', 'a', 'i', 'n', '-', 'v'] ++ key n) ++ [BRAIN_VERSION])

def only (l : List Text) : Option Text :=
  match distinct l with
  | [x] => some x
  | _ => none

def isHash (s : Text) : Bool := s.length = 64 && s.all fun c => isDigit c || (97 ≤ c && c ≤ 102)

def reviewStatusOf (payload : GameEnd) (found : List (Seat × Session)) (matched : Option (Seat × Session)) : ReviewStatus :=
  if MoveGate.strip MoveGate.isTrimmed payload.param = [] then .missing_kifu
  else if 1 < found.length then .ambiguous_self_seat
  else if found.length = 0 then .unmatched_bot
  else
    match matched with
    | none => .game_id_mismatch
    | some (_, session) =>
      if session.firstObservedPly ≠ 0 then .partial_history
      else if (only session.brainVersions).all (· ∉ REVIEWABLE_BRAIN_VERSIONS) ∨ ((only session.profileHashes).filter isHash).isNone then
        .unknown_strategy_version
      else .offline_only_reviewable

def archiveOf (s : Storage) (input : GameEndInput) (payload : GameEnd) : Archive :=
  let found := matchesOf s input.botIdHash
  let matched := match found with
    | [m] => if m.2.gameId = payload.gameId then some m else none
    | _ => none
  { gameId := payload.gameId
    brainVersion := matched.bind fun m => only m.2.brainVersions
    profileHash := matched.bind fun m => (only m.2.profileHashes).filter isHash
    workerVersion := input.workerVersion
    result := payload.result
    winner := payload.winner
    receivedAt := input.receivedAt
    param := payload.param
    positions := matched.map fun m => ⟨m.1.1, m.1.2, m.2.lastPly, m.2.firstObservedPly⟩
    reviewStatus := reviewStatusOf payload found matched
    duplicateCount := 0
    lastDuplicateAt := none
    conflictCount := 0
    conflictHashes := []
    bodyHash := input.bodyHash
    botIdHash := input.botIdHash }

/-- An answer without a body, or a refusal. -/
inductive EndOutcome
  | accepted
  | refused (status : ℕ) (code : Code)

def gameEnd (s : Storage) (input : GameEndInput) : Storage × EndOutcome :=
  match validateGameEndPayload input.payload with
  | .error e => (s, .refused e.status e.code)
  | .ok payload =>
    match s.terminal input.botIdHash with
    | none => ({ s with terminal := put s.terminal input.botIdHash (archiveOf s input payload) }, .accepted)
    | some existing =>
      if existing.bodyHash = input.bodyHash ∧ existing.gameId = payload.gameId then
        ({ s with
            terminal := put s.terminal input.botIdHash
              { existing with
                duplicateCount := min 1000000 (existing.duplicateCount + 1)
                lastDuplicateAt := some input.receivedAt } }, .accepted)
      else if (s.conflict input.botIdHash input.bodyHash).isSome then (s, .refused 409 .game_end_conflict)
      else
        ({ s with
            conflict := fun bot =>
              if bot = input.botIdHash then put (s.conflict bot) input.bodyHash ⟨input.receivedAt, payload.result, payload.winner⟩
              else s.conflict bot
            terminal := put s.terminal input.botIdHash
              { existing with
                reviewStatus := .conflicting_terminal_event
                conflictCount := min 1000000 (existing.conflictCount + 1)
                conflictHashes := lastOf 16 (distinct (existing.conflictHashes ++ [input.bodyHash])) } },
          .refused 409 .game_end_conflict)

/-! ## The export -/

inductive HistoryIntegrity
  | complete
  | partly
  | incomplete
  | unavailable
  deriving DecidableEq

structure Review where
  archive : Archive
  positions : List (ℕ × Position)
  nextFromPly : Option ℕ
  historyIntegrity : HistoryIntegrity
  /-- The status of the archive, unless the history is incomplete. -/
  classification : Option ReviewStatus

inductive ExportOutcome
  | review (r : Review)
  | refused (status : ℕ) (code : Code)

def pageOf (s : Storage) (p : ArchivedPositions) (query : ReviewQuery) : List (ℕ × Option Position) × Option ℕ :=
  let last := min p.throughPly (query.fromPly + query.limit - 1)
  if query.fromPly ≤ p.throughPly then
    ((List.range' query.fromPly (last + 1 - query.fromPly)).map fun ply => (ply, s.position (p.color, p.seat) ply),
      if last < p.throughPly then some (last + 1) else none)
  else ([], none)

def exportReview (s : Storage) (payload : Value) (botIdHash : Text) : ExportOutcome :=
  match validateOfflineReviewPayload payload with
  | .error e => .refused e.status e.code
  | .ok query =>
    match (s.terminal botIdHash).filter fun archive => archive.gameId = query.gameId && archive.botIdHash = botIdHash with
    | none => .refused 404 .offline_review_not_found
    | some archive =>
      match archive.positions with
      | none => .review ⟨archive, [], none, .unavailable, some archive.reviewStatus⟩
      | some p =>
        let (page, nextFromPly) := pageOf s p query
        let historyIntegrity :=
          if page.any (·.2.isNone) then .incomplete else if p.firstObservedPly ≠ 0 then .partly else HistoryIntegrity.complete
        .review
          { archive := archive
            positions := page.filterMap fun entry => entry.2.map fun position => (entry.1, position)
            nextFromPly := nextFromPly
            historyIntegrity := historyIntegrity
            classification := if historyIntegrity = .incomplete then none else some archive.reviewStatus }

/-! ## Runs -/

inductive Request
  | process (input : ProcessInput)
  | gameEnd (input : GameEndInput)
  | export (payload : Value) (botIdHash : Text)

inductive Response
  | process (outcome : Outcome)
  | gameEnd (outcome : EndOutcome)
  | export (outcome : ExportOutcome)

/-- The hashes are hashes. -/
def Request.isInternal : Request → Bool
  | .process input => isHash input.bodyHash && isHash input.botIdHash
  | .gameEnd input => isHash input.bodyHash && isHash input.botIdHash
  | .export _ botIdHash => isHash botIdHash

def fetch (s : Storage) (request : Request) : Storage × Response :=
  if ¬ request.isInternal then
    (s, match request with
      | .process _ => .process (.refused 400 .invalid_internal_request)
      | .gameEnd _ => .gameEnd (.refused 400 .invalid_internal_request)
      | .export .. => .export (.refused 400 .invalid_internal_request))
  else
    match request with
    | .process input => ((process env s input).1, .process (process env s input).2)
    | .gameEnd input => ((gameEnd s input).1, .gameEnd (gameEnd s input).2)
    | .export payload botIdHash => (s, .export (exportReview s payload botIdHash))

/-- The storage after requests. -/
def after (s : Storage) (requests : List Request) : Storage := requests.foldl (fun s request => (fetch env s request).1) s

end

end Docich.Webhook
