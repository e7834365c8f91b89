import Docich.MoveGate.View

/-!
# The TRPG corner

- `Scenario`, `State`: a story of scenes, and a session of it;
- `start`, `open_choice`, `close_choice`, `advance_scene`, `close_climax`, `finish`, `fail`, `timeout`: the phases;
- `record_vote`, `record_accusation`, `observe_chat`: what a chat message does.

An operation that raises is none. White space, case and digits of Unicode are a parameter.
-/

namespace Docich.Trpg

open MoveGate (Text text)

structure Unicode where
  isspace : ℕ → Bool
  lower : Text → Text
  isdigit : ℕ → Bool
  int : Text → Option ℕ

inductive Phase
  | idle
  | scene
  | choice
  | resolve
  | climax
  | reveal
  | «end»
  | failed
  | timeout
  deriving DecidableEq

def MAX_TEXT : ℕ := 256
def MAX_TRICK_TEXT : ℕ := 512
def MAX_CHOICES : ℕ := 4
def MAX_PARTICIPANTS : ℕ := 100000
def MAX_USER_ID : ℕ := 64
def MAX_VOTE_WINDOW_DEFAULT : ℕ := 60

/-- A scene, with the number of its choices and the scene that a choice leads to. -/
structure Scene where
  id : Text
  choices : ℕ
  next : List (ℕ × Option Text)

structure Climax where
  suspects : List Text
  answer : Text
  window_seconds : ℕ

structure Scenario where
  first_scene : Text
  scenes : List Scene
  climax : Option Climax

structure State where
  phase : Phase
  scenario : Option Scenario
  scene_id : Option Text
  vote_window_seconds : Option ℕ
  votes : List (ℕ × List Text)
  vote_order : List (Text × ℕ)
  accusations : List (Text × Text × Text)
  tally : Option (List ℕ)
  correct_users : Option (List Text)
  failure_reason : Option Text

def new_state : State := ⟨.idle, none, none, none, [], [], [], none, none, none⟩

def TRANSITIONS : Phase → List Phase
  | .idle => [.scene]
  | .scene => [.choice, .failed, .timeout]
  | .choice => [.resolve, .failed, .timeout]
  | .resolve => [.scene, .climax, .end, .failed, .timeout]
  | .climax => [.reveal, .failed, .timeout]
  | .reveal => [.end, .failed, .timeout]
  | .end => [.idle]
  | .failed => [.idle]
  | .timeout => [.idle, .failed]

def _transition (s : State) (target : Phase) : Option State :=
  if target ∈ TRANSITIONS s.phase then some { s with phase := target } else none

def _scene (s : State) : Option Scene := do
  let scenario ← s.scenario
  scenario.scenes.find? fun scene => some scene.id = s.scene_id

/-! ## Phases -/

def start (s : State) (scenario : Scenario) : Option State :=
  if s.phase ≠ .idle then none
  else some { new_state with phase := .scene, scenario := some scenario, scene_id := some scenario.first_scene }

def open_choice (s : State) : Option State :=
  if s.phase ≠ .scene then none
  else _transition { s with vote_window_seconds := some MAX_VOTE_WINDOW_DEFAULT, votes := [], vote_order := [], tally := none } .choice

/-- `get(str(i), [])` -/
def votersOf (s : State) (choice : ℕ) : List Text := (s.votes.lookup choice).getD []

/-- The votes of the choices from 1 on. -/
def close_choice (s : State) : Option State := do
  guard (s.phase = .choice)
  let scene ← _scene s
  _transition { s with tally := some ((List.range scene.choices).map fun i => (votersOf s (i + 1)).length) } .resolve

/-- The first choice with the most votes, when there is one. -/
def winning_choice (s : State) : Option (Option ℕ) := do
  let scene ← _scene s
  let tally := s.tally.getD []
  let best := (List.range scene.choices).foldl
    (fun best i => if best.2 < (tally.getD i 0 : ℤ) then (some (i + 1), (tally.getD i 0 : ℤ)) else best) (none, (-1 : ℤ))
  return if best.2 ≤ 0 then none else best.1

def advance_scene (s : State) : Option State := do
  guard (s.phase = .resolve)
  let scenario ← s.scenario
  let scene ← _scene s
  let winner ← winning_choice s
  match winner.bind fun choice => (scene.next.lookup choice).join with
  | none => _transition s (if scenario.climax.isSome then .climax else .end)
  | some scene_id =>
    if scenario.scenes.any fun scene => scene.id = scene_id then
      _transition { s with scene_id := some scene_id, votes := [], vote_order := [], tally := none } .scene
    else none

def close_climax (s : State) : Option State := do
  guard (s.phase = .climax)
  let scenario ← s.scenario
  let climax ← scenario.climax
  _transition { s with correct_users := some ((s.accusations.filter fun a => a.2.1 = climax.answer).map Prod.fst) } .reveal

def finish (s : State) : Option State :=
  match s.phase with
  | .reveal => _transition s .end
  | .end => some s
  | _ => none

def fail (s : State) (reason : Text) : Option State :=
  if s.phase ∈ [.idle, .end, .failed, .timeout] then none
  else if reason.length < 1 ∨ MAX_TEXT < reason.length then none
  else _transition { s with failure_reason := some reason } .failed

def timeout (s : State) : Option State :=
  if s.phase ∈ [.idle, .end, .failed, .timeout] then none else _transition s .timeout

/-! ## Chat -/

variable (u : Unicode)

def strip (t : Text) : Text := ((t.dropWhile u.isspace).reverse.dropWhile u.isspace).reverse

/-- `split()`, on runs of white space. -/
def words (t : Text) : List Text := (t.splitOnP u.isspace).filter (· ≠ [])

def bang : ℕ := '!'.toNat

def parse_vote (t : Text) : Option ℕ :=
  let t := u.lower (strip u t)
  let t := if t.head? = some bang then strip u t.tail else t
  match words u t with
  | [verb, n] => if verb = text ['v', 'o', 't', 'e'] ∨ verb = text ['v'] then choiceOf n else none
  | _ :: _ :: _ => none
  | _ => choiceOf t
where
  choiceOf (t : Text) : Option ℕ := do
    guard (t ≠ [] ∧ t.all u.isdigit)
    let choice ← u.int t
    if 1 ≤ choice ∧ choice ≤ MAX_CHOICES then some choice else none

def accuse : Text := text ['!', 'a', 'c', 'c', 'u', 's', 'e']

def parse_accusation (t : Text) : Option (Text × Text) :=
  let t := strip u t
  if ¬ accuse.isPrefixOf (u.lower t) then none
  else
    let t := strip u (t.drop accuse.length)
    if t = [] then none
    else
      let suspect := t.takeWhile fun c => !u.isspace c
      let trick := strip u (t.drop suspect.length)
      if suspect.length < 1 ∨ MAX_TEXT < suspect.length then none
      else if MAX_TRICK_TEXT < trick.length then none
      else some (suspect, trick)

/-- A dictionary with this value for this key: in its place, or at the end. -/
def put {K V : Type} [DecidableEq K] (key : K) (value : V) (d : List (K × V)) : List (K × V) :=
  if d.any fun f => f.1 = key then d.map fun f => if f.1 = key then (key, value) else f else d ++ [(key, value)]

def record_vote (s : State) (uid : Text) (choice : ℕ) : Option State := do
  guard (s.phase = .choice)
  let scene ← _scene s
  guard (1 ≤ choice ∧ choice ≤ scene.choices)
  let known := s.vote_order.lookup uid
  guard (known.isSome ∨ s.vote_order.length < MAX_PARTICIPANTS)
  let votes :=
    match known with
    | none => s.votes
    | some prev => (s.votes.map fun v => if v.1 = prev then (v.1, v.2.filter (· ≠ uid)) else v).filter fun v => v.1 ≠ prev || v.2 ≠ []
  let voters := (votes.lookup choice).getD []
  return { s with
    vote_order := put uid choice s.vote_order
    votes := put choice (if uid ∈ voters then voters else voters ++ [uid]) votes }

def record_accusation (s : State) (uid suspect trick : Text) : Option State := do
  guard (s.phase = .climax)
  let scenario ← s.scenario
  let climax ← scenario.climax
  guard (1 ≤ suspect.length ∧ suspect.length ≤ MAX_TEXT ∧ suspect ∈ climax.suspects)
  guard (trick.length ≤ MAX_TRICK_TEXT)
  guard ((s.accusations.lookup uid).isSome ∨ s.accusations.length < MAX_PARTICIPANTS)
  return { s with accusations := put uid (suspect, trick) s.accusations }

/-- A message that is ignored, or refused, leaves the state as it is. -/
def observe_chat (s : State) (uid message : Text) : State :=
  if uid.length < 1 ∨ MAX_USER_ID < uid.length then s
  else
    match parse_vote u message with
    | some choice => (record_vote s uid choice).getD s
    | none =>
      match parse_accusation u message with
      | some (suspect, trick) => (record_accusation s uid suspect trick).getD s
      | none => s

end Docich.Trpg
