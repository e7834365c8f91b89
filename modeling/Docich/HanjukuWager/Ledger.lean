import Docich.Predictions.Leaderboard

/-!
# The wager of a Hanjuku run

- `Identity`, `Result`, `Round`, `State`: the ledger `hanjuku_predictions.json`;
- `load`: the ledger that a tick works on, or an exception;
- `outcomeTitles`, `resumeOutcomeTitles`, `resolveIndex`: what is wagered on, and which outcome a result decides;
- `Remote`: a row of the API, and `isOf`: whether it is the row of a round;
- `noContest`, `evidenceRank`: what the counts of a row prove.

Texts are lists of characters. A record is typed, so the checks of its types are those of Lean; the limits on the bytes
of a record are left out.
-/

namespace Docich.HanjukuWager

open Predictions (Text isText)
open Wire (Json)

/-! ## Identities -/

/-- One run of the game; `game` is always `hanjuku-hero`. -/
structure Identity where
  runtime_id : Text
  generation : ℕ
  lease_id : Text
  deriving DecidableEq

def isHex (c : Char) : Bool := c.isDigit || ('a' ≤ c && c ≤ 'f')

/-- `^g([1-9][0-9]*)-([a-f0-9]{6,32})$`. -/
def runtimeIdGeneration : Text → Option ℕ
  | 'g' :: rest =>
    let number := rest.takeWhile (· ≠ '-')
    match rest.dropWhile (· ≠ '-') with
    | '-' :: suffix =>
      if number.all Char.isDigit && number.head?.any (· ≠ '0') && 6 ≤ suffix.length && suffix.length ≤ 32 &&
          suffix.all isHex then
        some (number.foldl (fun n c => 10 * n + (c.toNat - 48)) 0)
      else none
    | _ => none
  | _ => none

def Identity.checked (i : Identity) : Bool := runtimeIdGeneration i.runtime_id = some i.generation && isText i.lease_id

/-! ## Results -/

def MAX_CHAPTER : ℕ := 12

/-- `TERMINAL_REASONS`. -/
inductive Reason
  | game_over
  | screen_stalled
  | input_stalled
  deriving DecidableEq

/-- A digest in hexadecimal. -/
def isSha (s : Text) : Bool := s.length = 64 && s.all isHex

/-- How a run has ended, and how many chapters it had cleared; none when that is not known. -/
structure Result where
  identity : Identity
  reason : Reason
  frame_sha256 : Text
  cleared : Option ℕ

def checkedResult (value : Result) (identity : Identity) : Bool :=
  value.identity = identity && isSha value.frame_sha256 && value.cleared.all (· ≤ MAX_CHAPTER)

/-! ## Rounds -/

inductive Status
  | INTENT
  | ACTIVE
  | LOCKED
  | RESOLVED
  | CANCELED
  deriving DecidableEq

/-- `LIVE`. -/
def Status.live (s : Status) : Bool := s = .ACTIVE || s = .LOCKED

/-- `DONE`. -/
def Status.done (s : Status) : Bool := s = .RESOLVED || s = .CANCELED

/-- A wager on how far the run comes, or on whether the resumed chapter is cleared. -/
inductive Kind
  | range (middle : ℕ)
  | resume
  deriving DecidableEq

structure Round where
  identity : Identity
  kind : Kind
  target : ℕ
  nonce : Text
  title : Text
  outcome_titles : List Text
  window : ℕ
  attempted : Bool
  status : Status
  id : Option Text := none
  outcome_ids : List Text := []
  result : Option Result := none

inductive Mode
  | incompatible_soren
  | idle
  | disabled
  | explore
  | unconfigured
  | paused
  | blocked
  | pending
  | active
  | settling
  | resolved
  | canceled
  | known_result
  | complete_record
  | error

/-- `ERRORS`. -/
inductive Code
  | transport
  | auth
  | rate_limited
  | rejected
  | invalid_response
  | configuration
  | invalid_state
  | unexpected
  | create_unknown
  | remote_missing
  | remote_mismatch
  | clock_regressed
  | leaderboard

/-- An `APIError`, or any other exception. -/
inductive Exc
  | api (code : Code) (rejected : Bool)
  | other

structure State where
  best_cleared : ℕ
  round : Option Round
  mode : Mode
  next_poll_at : ℚ
  last_poll_at : ℚ
  error : Option Code

/-! ## Titles and outcomes -/

def POLL_SECONDS : ℚ := 30
def RETRY_SECONDS : ℚ := 300
def LEGACY_OUTCOME_COUNT : ℕ := 3

def numeral (n : ℕ) : Text := Nat.toDigits 10 n

def STALLED_OUTCOME_TITLE : Text := "画面停滞で一時終了（同じ状態から再開予定）".toList
def RESUME_STALLED_OUTCOME_TITLE : Text := "停滞で一時停止".toList

/-- The target and the middle of a new wager; none when no record is left to break. -/
def thresholds (best : ℕ) : Except Exc (Option (ℕ × ℕ)) :=
  if MAX_CHAPTER < best then .error .other
  else if MAX_CHAPTER ≤ best then .ok none
  else if best + 1 < 2 then .error .other
  else .ok (some (best + 1, max 1 ((best + 1) / 2)))

def outcomeTitles (target middle : ℕ) : List Text :=
  let middle_title := if middle + 1 = target then numeral middle ++ "話突破".toList
    else numeral middle ++ "〜".toList ++ numeral (target - 1) ++ "話突破".toList
  [numeral target ++ "話突破（新記録）".toList, middle_title, numeral middle ++ "話突破できず".toList,
    STALLED_OUTCOME_TITLE]

/-- A stored wager may have three or four outcomes. -/
def acceptedOutcomeTitles (target middle : ℕ) : List (List Text) :=
  [(outcomeTitles target middle).take LEGACY_OUTCOME_COUNT, outcomeTitles target middle]

def resumeOutcomeTitles (target : ℕ) : List Text :=
  [numeral target ++ "話突破".toList, numeral target ++ "話突破ならず".toList, RESUME_STALLED_OUTCOME_TITLE]

def titleOf (nonce : Text) : Text := "半熟英雄：どこまでゲーム到達できるか？ #".toList ++ nonce

def resumeTitleOf (target : ℕ) (nonce : Text) : Text :=
  "半熟英雄：".toList ++ numeral target ++ "話を突破できる？ #".toList ++ nonce

def votingWindow (target ending_window : ℕ) : Except Exc ℕ :=
  if 1 ≤ target ∧ target ≤ MAX_CHAPTER ∧ 30 ≤ ending_window ∧ ending_window ≤ 1800 then
    .ok (max 30 (ending_window * target / MAX_CHAPTER))
  else .error .other

def winner (cleared target middle : ℕ) : Except Exc ℕ :=
  if MAX_CHAPTER < cleared then .error .other
  else if 1 ≤ middle ∧ middle < target ∧ target ≤ MAX_CHAPTER then
    .ok (if target ≤ cleared then 0 else if middle ≤ cleared then 1 else 2)
  else .error .other

/-- The outcome that a result decides; none when the wager has to be canceled. -/
def resolveIndex (row : Round) (result : Result) : Except Exc (Option ℕ) :=
  match row.kind with
  | .resume =>
    if result.cleared.any (MAX_CHAPTER < ·) then .error .other
    else if result.cleared.any (row.target ≤ ·) then .ok (some 0)
    else if result.reason = .screen_stalled ∨ result.reason = .input_stalled then .ok (some 2)
    else if result.reason = .game_over ∧ result.cleared.isSome then .ok (some 1)
    else .ok none
  | .range middle =>
    if LEGACY_OUTCOME_COUNT < row.outcome_titles.length ∧ result.reason = .screen_stalled then
      .ok (some LEGACY_OUTCOME_COUNT)
    else match result.cleared with
      | none => .ok none
      | some cleared => (winner cleared row.target middle).map some

/-! ## Loading -/

/-- The titles fit the kind and its thresholds. -/
def checkIntent (row : Round) : Bool :=
  match row.kind with
  | .range middle =>
    1 ≤ middle && middle < row.target && row.target ≤ MAX_CHAPTER && row.title = titleOf row.nonce &&
      decide (row.outcome_titles ∈ acceptedOutcomeTitles row.target middle)
  | .resume =>
    1 ≤ row.target && row.target ≤ MAX_CHAPTER && row.title = resumeTitleOf row.target row.nonce &&
      row.outcome_titles = resumeOutcomeTitles row.target

/-- The identifiers of an owned prediction. -/
def checkOwnership (row : Round) : Bool :=
  row.id.all fun id => isText id && row.outcome_ids.length = row.outcome_titles.length &&
    decide row.outcome_ids.Nodup && row.outcome_ids.all isText

def checkRound (row : Round) : Bool :=
  row.identity.checked && checkIntent row && (row.nonce.length = 12 && row.nonce.all isHex) &&
    (1 ≤ row.window && row.window ≤ 1800) && checkOwnership row && row.result.all (checkedResult · row.identity)

/-- What `_load` accepts. -/
def checkState (state : State) : Bool :=
  state.best_cleared ≤ MAX_CHAPTER && 0 ≤ state.next_poll_at && 0 ≤ state.last_poll_at && state.round.all checkRound

def load (seed : ℕ) : Option State → Except Exc State
  | none => .ok ⟨seed, none, .idle, 0, 0, none⟩
  | some state =>
    if checkState state then .ok { state with best_cleared := max seed state.best_cleared } else .error .other

/-! ## Rows of the API -/

/-- An outcome of a row; fields that may be missing are raw. -/
structure Outcome where
  id : Text
  title : Text
  users : Option Json
  channel_points : Option Json
  top_predictors : Option Json

structure Remote where
  id : Text
  title : Text
  status : Status
  outcomes : List Outcome
  winning_outcome_id : Option Json
  ended_at : Option Json

/-- What `request` lets through; here the outcomes of a row have different identifiers. -/
def Remote.admitted (row : Remote) : Bool :=
  isText row.id && row.status ≠ .INTENT && row.outcomes.all (isText ·.id) && decide (row.outcomes.map Outcome.id).Nodup

/-- `_matches` -/
def isOf (row : Round) (remote : Remote) : Bool :=
  remote.title = row.title && remote.outcomes.map Outcome.title = row.outcome_titles &&
    row.id.all (remote.id = ·) && (row.outcome_ids.isEmpty || remote.outcomes.map Outcome.id = row.outcome_ids)

def hasPredictors (remote : Remote) : Bool :=
  remote.outcomes.any fun outcome => match outcome.top_predictors with
    | some (.array (_ :: _)) => true
    | _ => false

/-- A count that can be read. -/
def readable : Option Json → Option ℤ
  | some (.int n) => some n
  | _ => none

def Outcome.counts (outcome : Outcome) : List ℤ := [outcome.users, outcome.channel_points].filterMap readable

/-- How many outcomes have a bet; none when no count can be read. -/
def contestedOutcomes (remote : Remote) : Option ℕ :=
  if remote.outcomes.all (·.counts.isEmpty) then none
  else some (remote.outcomes.countP fun outcome => outcome.counts.any (0 < ·))

def noContest (remote : Remote) : Bool := (contestedOutcomes remote).any (· ≤ 1)

def evidenceRank (remote : Remote) : ℕ :=
  if hasPredictors remote then 2 else if (contestedOutcomes remote).isSome then 1 else 0

def canceledCandidate (row : Remote) : Option Remote :=
  match row.status with
  | .CANCELED => some row
  | .LOCKED => some { row with status := .CANCELED, winning_outcome_id := some .null }
  | _ => none

/-! ## Rows of the leaderboard -/

def Status.text (s : Status) : Text :=
  match s with
  | .INTENT => "INTENT".toList
  | .ACTIVE => "ACTIVE".toList
  | .LOCKED => "LOCKED".toList
  | .RESOLVED => Predictions.resolvedText
  | .CANCELED => Predictions.canceledText

/-- A key of a dictionary, when it has a value. -/
def keyed (key : Text) (value : Option Json) : Wire.Dict := (value.map fun v => (key, v)).toList

def Outcome.json (outcome : Outcome) : Json :=
  .object ([(Predictions.idKey, .string outcome.id), (Predictions.titleKey, .string outcome.title)] ++
    keyed Predictions.usersKey outcome.users ++ keyed Predictions.pointsKey outcome.channel_points ++
    keyed Predictions.topPredictorsKey outcome.top_predictors)

def Remote.json (row : Remote) : Json :=
  .object ([(Predictions.idKey, .string row.id), (Predictions.titleKey, .string row.title),
    (Predictions.statusKey, .string row.status.text),
    (Predictions.outcomesKey, .array (row.outcomes.map Outcome.json))] ++
    keyed Predictions.winnerKey row.winning_outcome_id ++ keyed Predictions.endedAtKey row.ended_at)

end Docich.HanjukuWager
