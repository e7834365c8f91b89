import Docich.Ranked.Stable
import Docich.Wire.Json

/-!
# The prediction leaderboard

- `extract`: the round of a settled row;
- `record`: the ledger after a row;
- `totals`, `ranking`, `boards`: the viewers in the order of a metric;
- `reload`: the ledger after it was saved and loaded.

A ledger is its rounds in the order of their dictionary. What `str` makes of a value that is no string, and whether a
ledger keeps to `MAX_BYTES`, are parameters.
-/

namespace Docich.Predictions

open Ranked (sortBy)
open Wire (Json Dict isFalsy)

abbrev Text := List Char

/-! ## Rows -/

def MAX_ROUNDS : ℕ := 2000
def MAX_PREDICTORS : ℕ := 100
def MAX_TEXT : ℕ := 128

inductive Status
  | RESOLVED
  | CANCELED
  deriving DecidableEq

structure Outcome where
  id : Text
  title : Text
  users : ℕ
  points : ℕ
  deriving DecidableEq

structure Predictor where
  user_id : Text
  user_login : Text
  user_name : Text
  outcome_id : Text
  used : ℕ
  won : ℕ
  refunded : ℕ
  hit : Option Bool
  deriving DecidableEq

structure Round where
  id : Text
  title : Text
  ended_at : Text
  status : Status
  winning_outcome_id : Option Text
  outcomes : List Outcome
  predictors : List Predictor
  deriving DecidableEq

inductive LeaderboardError
  | ledger
  | row
  | winner
  | canceledWinner
  | outcome
  | text (what : Text)
  | count (what : Text)
  | predictors
  | predictor
  | duplicate
  | unknownWinner
  | noReason
  | resolvedReason
  | recordedAt
  | bound
  deriving DecidableEq

def isText (s : Text) : Bool := 1 ≤ s.length && s.length ≤ MAX_TEXT

def textOf (x : Option Json) (e : LeaderboardError) : Except LeaderboardError Text :=
  match x with
  | some (.string s) => if isText s then .ok s else .error e
  | _ => .error e

def countOf (x : Option Json) (e : LeaderboardError) : Except LeaderboardError ℕ :=
  match x with
  | some (.int n) => if 0 ≤ n then .ok n.toNat else .error e
  | _ => .error e

def check (c : Bool) (e : LeaderboardError) : Except LeaderboardError Unit := if c then .ok () else .error e

def stringOf : Option Json → Option Text
  | some (.string s) => some s
  | _ => none

def idKey : Text := ['i', 'd']
def titleKey : Text := ['t', 'i', 't', 'l', 'e']
def outcomesKey : Text := ['o', 'u', 't', 'c', 'o', 'm', 'e', 's']
def statusKey : Text := ['s', 't', 'a', 't', 'u', 's']
def winnerKey : Text :=
  ['w', 'i', 'n', 'n', 'i', 'n', 'g', '_', 'o', 'u', 't', 'c', 'o', 'm', 'e', '_', 'i', 'd']
def endedAtKey : Text := ['e', 'n', 'd', 'e', 'd', '_', 'a', 't']
def usersKey : Text := ['u', 's', 'e', 'r', 's']
def pointsKey : Text := ['c', 'h', 'a', 'n', 'n', 'e', 'l', '_', 'p', 'o', 'i', 'n', 't', 's']
def topPredictorsKey : Text := ['t', 'o', 'p', '_', 'p', 'r', 'e', 'd', 'i', 'c', 't', 'o', 'r', 's']
def userIdKey : Text := ['u', 's', 'e', 'r', '_', 'i', 'd']
def userLoginKey : Text := ['u', 's', 'e', 'r', '_', 'l', 'o', 'g', 'i', 'n']
def userNameKey : Text := ['u', 's', 'e', 'r', '_', 'n', 'a', 'm', 'e']
def usedKey : Text := pointsKey ++ ['_', 'u', 's', 'e', 'd']
def wonKey : Text := pointsKey ++ ['_', 'w', 'o', 'n']
def resolvedText : Text := ['R', 'E', 'S', 'O', 'L', 'V', 'E', 'D']
def canceledText : Text := ['C', 'A', 'N', 'C', 'E', 'L', 'E', 'D']

def noContest : Text := ['n', 'o', '-', 'c', 'o', 'n', 't', 'e', 's', 't']

def CANCEL_REASONS : List Text := [noContest]

def statusOf (x : Option Json) : Option Status :=
  match stringOf x with
  | some s => if s = resolvedText then some .RESOLVED else if s = canceledText then some .CANCELED else none
  | none => none

/-- The points of a row: what was won and refunded, and whether it was a hit. -/
def pointsOf (status : Status) (winner outcome_id : Text) (used : ℕ) (x : Option Json) :
    Except LeaderboardError (ℕ × ℕ × Option Bool) :=
  match status with
  | .RESOLVED => do
    let won ← countOf x (.count wonKey)
    return (won, 0, some (outcome_id = winner))
  | .CANCELED =>
    match x with
    | none | some .null => .ok (0, used, none)
    | some x => do
      let _ ← countOf (some x) (.count wonKey)
      return (0, used, none)

/-- One of the `top_predictors`, with the pairs of user and outcome seen so far. -/
def extractPredictor (status : Status) (winner outcome_id : Text) (seen : List (Text × Text)) (row : Json) :
    Except LeaderboardError (Predictor × List (Text × Text)) :=
  match row with
  | .object row => do
    let user_id ← textOf (Dict.get row userIdKey) (.text userIdKey)
    check ((user_id, outcome_id) ∉ seen) .duplicate
    let used ← countOf (Dict.get row usedKey) (.count usedKey)
    let (won, refunded, hit) ← pointsOf status winner outcome_id used (Dict.get row wonKey)
    let user_login ← textOf (Dict.get row userLoginKey) (.text userLoginKey)
    let user_name ← textOf (Dict.get row userNameKey) (.text userNameKey)
    return (⟨user_id, user_login, user_name, outcome_id, used, won, refunded, hit⟩, (user_id, outcome_id) :: seen)
  | _ => .error .predictor

def extractPredictors (status : Status) (winner outcome_id : Text) (seen : List (Text × Text)) :
    List Json → Except LeaderboardError (List Predictor × List (Text × Text))
  | [] => .ok ([], seen)
  | row :: rows => do
    let (p, seen) ← extractPredictor status winner outcome_id seen row
    let (ps, seen) ← extractPredictors status winner outcome_id seen rows
    return (p :: ps, seen)

/-- The rows of an outcome: `outcome.get("top_predictors") or []`. -/
def topPredictors (x : Option Json) : Except LeaderboardError (List Json) :=
  match x with
  | none => .ok []
  | some x =>
    if isFalsy x then .ok []
    else match x with
      | .array rows => if MAX_PREDICTORS < rows.length then .error .predictors else .ok rows
      | _ => .error .predictors

def extractOutcome (status : Status) (winner : Text) (seen : List (Text × Text)) (outcome : Json) :
    Except LeaderboardError (Outcome × List Predictor × List (Text × Text)) :=
  match outcome with
  | .object outcome => do
    let id ← textOf (Dict.get outcome idKey) .outcome
    match stringOf (Dict.get outcome titleKey) with
    | none => .error .outcome
    | some title =>
      let users ← countOf (some ((Dict.get outcome usersKey).getD (.int 0))) (.count usersKey)
      let points ← countOf (some ((Dict.get outcome pointsKey).getD (.int 0))) (.count pointsKey)
      let rows ← topPredictors (Dict.get outcome topPredictorsKey)
      let (ps, seen) ← extractPredictors status winner id seen rows
      return (⟨id, title, users, points⟩, ps, seen)
  | _ => .error .outcome

def extractOutcomes (status : Status) (winner : Text) (seen : List (Text × Text)) :
    List Json → Except LeaderboardError (List Outcome × List Predictor)
  | [] => .ok ([], [])
  | outcome :: outcomes => do
    let (o, ps, seen) ← extractOutcome status winner seen outcome
    let (os, qs) ← extractOutcomes status winner seen outcomes
    return (o :: os, ps ++ qs)

/-- The winner of a row; a canceled row has none. -/
def winnerOf (status : Status) (x : Option Json) : Except LeaderboardError Text :=
  match status with
  | .RESOLVED => textOf x .winner
  | .CANCELED =>
    match x with
    | none | some .null | some (.string []) => .ok []
    | _ => .error .canceledWinner

/-- `str(remote.get("ended_at") or "")` -/
def endedAt (str : Json → Text) (x : Option Json) : Text :=
  match x with
  | none => []
  | some x =>
    if isFalsy x then []
    else match x with
      | .string s => s
      | x => str x

/-- The round of a row; none when it is not settled. -/
def extract (str : Json → Text) (remote : Json) : Except LeaderboardError (Option Round) :=
  match remote with
  | .object remote =>
    match Dict.get remote idKey, Dict.get remote titleKey, Dict.get remote outcomesKey with
    | some (.string id), some (.string title), some (.array outcomes) => do
      check (isText id && 2 ≤ outcomes.length && outcomes.length ≤ 10) .row
      match statusOf (Dict.get remote statusKey) with
      | none => return none
      | some status =>
        let winner ← winnerOf status (Dict.get remote winnerKey)
        let (os, ps) ← extractOutcomes status winner [] outcomes
        check (status = .CANCELED || winner ∈ os.map Outcome.id) .unknownWinner
        return some {
          id := id
          title := title
          ended_at := endedAt str (Dict.get remote endedAtKey)
          status := status
          winning_outcome_id := if status = .RESOLVED then some winner else none
          outcomes := os
          predictors := ps }
    | _, _, _ => .error .row
  | _ => .error .row

/-! ## The ledger -/

/-- A round as it is stored. -/
structure Recorded where
  round : Round
  corner : Text
  cancel_reason : Option Text
  recorded_at : Option ℤ

/-- The rounds, each id once. -/
abbrev Ledger := List Recorded

def checkPredictor (status : Status) (p : Predictor) : Bool :=
  isText p.user_id && p.refunded = (if status = .CANCELED then p.used else 0) &&
    (status = .RESOLVED || (p.hit = none && p.won = 0)) && (status = .CANCELED || p.hit ≠ none)

def checkRound (r : Recorded) : Bool :=
  (r.round.status = .CANCELED || r.round.winning_outcome_id ≠ none) &&
    (r.round.status = .RESOLVED || (r.round.winning_outcome_id = none && r.cancel_reason.any (· ∈ CANCEL_REASONS))) &&
    r.round.predictors.all (checkPredictor r.round.status)

def checkLedger (ledger : Ledger) : Bool := ledger.all checkRound

/-- Rounds are ordered by their end, then by their id. -/
def key (r : Round) : Text ×ₗ Text := toLex (r.ended_at, r.id)

def prune (ledger : Ledger) : Ledger :=
  if ledger.length ≤ MAX_ROUNDS then ledger
  else
    let order := sortBy id (ledger.map fun r => key r.round)
    let old := order.take (ledger.length - MAX_ROUNDS)
    ledger.filter fun r => key r.round ∉ old

/-- What a call adds to the round of its row. -/
def stored (round : Round) (corner : Text) (now : Option ℤ) (cancel_reason : Option Text) :
    Except LeaderboardError Recorded := do
  check (isText corner) (.text [])
  match round.status with
  | .CANCELED => check (cancel_reason.any (· ∈ CANCEL_REASONS)) .noReason
  | .RESOLVED => check (cancel_reason = none) .resolvedReason
  check (now.all (0 ≤ ·)) .recordedAt
  return ⟨round, corner, cancel_reason, now⟩

def remoteId : Json → Except LeaderboardError Text
  | .object remote => textOf (Dict.get remote idKey) .row
  | _ => .error .row

/-- The answer of `record`, and the ledger after it. -/
def record (str : Json → Text) (ledger : Ledger) (remote : Json) (corner : Text) (now : Option ℤ)
    (cancel_reason : Option Text) : Except LeaderboardError (Bool × Ledger) := do
  check (checkLedger ledger) .ledger
  let id ← remoteId remote
  if ∃ r ∈ ledger, r.round.id = id then return (false, ledger)
  else
    match ← extract str remote with
    | none => return (false, ledger)
    | some round =>
      let r ← stored round corner now cancel_reason
      return (true, prune (ledger ++ [r]))

/-- The ledger that is loaded after it was saved: its rounds in the order of their ids. -/
def reload (fits : Ledger → Bool) (ledger : Ledger) : Ledger :=
  if checkLedger ledger ∧ fits ledger then sortBy (fun r => r.round.id) ledger else ledger

/-! ## Boards -/

/-- What the rows of a viewer add up to. -/
@[ext] structure Entry where
  user_id : Text
  user_login : Text
  user_name : Text
  rounds : ℕ
  participations : ℕ
  hits : ℕ
  used : ℕ
  won : ℕ
  lost : ℤ
  refunded : ℕ
  deriving DecidableEq

def Entry.new (user_id : Text) : Entry := ⟨user_id, [], [], 0, 0, 0, 0, 0, 0, 0⟩

def Entry.add (e : Entry) (row : Status × Predictor) : Entry :=
  { e with
    participations := e.participations + 1
    used := e.used + row.2.used
    won := e.won + row.2.won
    refunded := e.refunded + row.2.refunded
    rounds := e.rounds + if row.1 = .RESOLVED then 1 else 0
    hits := e.hits + if row.1 = .RESOLVED ∧ row.2.hit = some true then 1 else 0
    lost := e.lost + if row.1 = .RESOLVED ∧ row.2.hit ≠ some true then (row.2.used : ℤ) - row.2.refunded else 0
    user_login := row.2.user_login
    user_name := row.2.user_name }

def Entry.net (e : Entry) : ℤ := e.won - e.used + e.refunded

def Entry.hit_rate (e : Entry) : ℚ := if e.rounds = 0 then 0 else e.hits / e.rounds

def rowsOf (statuses : Status → Bool) (rounds : List Round) : List (Status × Predictor) :=
  rounds.flatMap fun r => if statuses r.status then r.predictors.map (r.status, ·) else []

def addRow (totals : List Entry) (row : Status × Predictor) : List Entry :=
  if row.2.user_id ∈ totals.map Entry.user_id then
    totals.map fun e => if e.user_id = row.2.user_id then e.add row else e
  else totals ++ [(Entry.new row.2.user_id).add row]

def totals (statuses : Status → Bool) (rounds : List Round) : List Entry := (rowsOf statuses rounds).foldl addRow []

inductive Metric
  | hit_rate
  | staked
  | won
  | lost
  | plays
  deriving DecidableEq

def METRICS : List Metric := [.hit_rate, .staked, .won, .lost, .plays]

/-- The least value is listed first. -/
def sortKey : Metric → Entry → ℚ ×ₗ ℤ ×ₗ ℤ ×ₗ Text
  | .hit_rate, e => toLex (-e.hit_rate, toLex (-e.hits, toLex (-e.net, e.user_login)))
  | .staked, e => toLex (-e.used, toLex (-e.participations, toLex (0, e.user_login)))
  | .won, e => toLex (-e.won, toLex (-e.participations, toLex (0, e.user_login)))
  | .lost, e => toLex (-e.lost, toLex (-e.participations, toLex (0, e.user_login)))
  | .plays, e => toLex (-e.participations, toLex (-e.rounds, toLex (0, e.user_login)))

/-- Whether a viewer is on a board: enough rounds, and some of the points that it ranks. -/
def listed (metric : Metric) (minimum : ℕ) (e : Entry) : Bool :=
  match metric with
  | .hit_rate => minimum ≤ e.rounds
  | .staked | .plays => minimum ≤ e.participations
  | .won => minimum ≤ e.participations && 0 < e.won
  | .lost => minimum ≤ e.participations && 0 < e.lost

def board (statuses : Status → Bool) (metric : Metric) (minimum limit : ℕ) (rounds : List Round) : List Entry :=
  (sortBy (sortKey metric) ((totals statuses rounds).filter (listed metric minimum))).take limit

def everyStatus : Status → Bool := fun _ => true

def gradedStatus : Status → Bool := fun s => s = .RESOLVED

def roundsOf (ledger : Ledger) : List Round := ledger.map Recorded.round

def ranking (ledger : Ledger) (min_rounds limit : ℤ) : Except LeaderboardError (List Entry) := do
  check (checkLedger ledger) .ledger
  check (1 ≤ min_rounds && 1 ≤ limit) .bound
  return board gradedStatus .hit_rate min_rounds.toNat limit.toNat (roundsOf ledger)

def boards (ledger : Ledger) (min_rounds min_participations limit : ℤ) :
    Except LeaderboardError (List (Metric × List Entry)) := do
  check (checkLedger ledger) .ledger
  check (1 ≤ min_rounds && 1 ≤ min_participations && 1 ≤ limit) .bound
  return METRICS.map fun metric =>
    (metric, board everyStatus metric (if metric = .hit_rate then min_rounds else min_participations).toNat limit.toNat
      (roundsOf ledger))

end Docich.Predictions
