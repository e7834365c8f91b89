import Docich.Fallible
import Docich.Othello.Rules

/-!
# The Othello room

- `openRoom`, `startMatch`, `viewerMove`, `fail`, `timeout`: the operations of the room, each in one transaction;
- `aiReplies`: the loop in which the worker answers a move;
- `Sound`: what every stored state satisfies (`sound_stored`);
- `plays_othello`: in every run of operations, the room plays Othello.
-/

namespace Docich.Othello

open Option

/-! ## States -/

inductive Phase
  | IDLE
  | ROOM_OPEN
  | PLAYING
  | FINISHED
  | FAILED
  | TIMEOUT
  deriving DecidableEq

def Phase.name : Phase → String
  | .IDLE => "IDLE"
  | .ROOM_OPEN => "ROOM_OPEN"
  | .PLAYING => "PLAYING"
  | .FINISHED => "FINISHED"
  | .FAILED => "FAILED"
  | .TIMEOUT => "TIMEOUT"

def transitions : Phase → List Phase
  | .IDLE => [.ROOM_OPEN]
  | .ROOM_OPEN => [.PLAYING, .FAILED, .TIMEOUT]
  | .PLAYING => [.FINISHED, .FAILED, .TIMEOUT]
  | .FINISHED | .FAILED | .TIMEOUT => [.IDLE]

inductive Outcome
  | viewer_win
  | ai_win
  | draw
  | aborted
  | timeout

structure Result where
  black : ℕ
  white : ℕ
  outcome : Outcome
  endedAt : String

structure Room where
  phase : Phase
  roomId : Option String
  viewer : Option String
  board : Option Board
  turn : Option Player
  movesPlayed : ℕ
  moveWindowSeconds : Option ℤ
  moveDeadlineAt : Option String
  openedAt : Option String
  startedAt : Option String
  endedAt : Option String
  outcome : Option Outcome
  result : Option Result
  failureReason : Option String

def initial : Room where
  phase := .IDLE
  roomId := none
  viewer := none
  board := none
  turn := none
  movesPlayed := 0
  moveWindowSeconds := none
  moveDeadlineAt := none
  openedAt := none
  startedAt := none
  endedAt := none
  outcome := none
  result := none
  failureReason := none

/-- Why an operation is given up: the code of `OthelloRoomError`, or an error of the rules. -/
inductive Error
  | closed (code : String)
  | rules (text : RulesError)

def ofRules {α : Type} : Except RulesError α → Except Error α
  | .ok a => .ok a
  | .error text => .error (.rules text)

def require (c : Bool) (code : String) : Except Error Unit := if c then .ok () else .error (.closed code)

/-- `validateBoard` of a board that may be missing. -/
def validated : Option Board → Except RulesError Board
  | none => .error "invalid board"
  | some b => validateBoard b

/-! ## Spectators -/

structure Snapshot where
  phase : Phase
  roomId : Option String
  board : Option Board
  turn : Option Player
  scores : Option Score
  movesPlayed : ℕ
  outcome : Option Outcome
  result : Option Result
  yourTurn : Option Bool

def spectatorSnapshot (s : Room) : Except Error Snapshot :=
  if s.phase = .IDLE then
    .ok { phase := .IDLE, roomId := none, board := none, turn := none, scores := none, movesPlayed := 0, outcome := none,
          result := none, yourTurn := none }
  else do
    let board ← ofRules (validateBoard (s.board.getD newBoard))
    return { phase := s.phase, roomId := s.roomId, board := some board, turn := s.turn, scores := some (score board),
             movesPlayed := s.movesPlayed, outcome := s.outcome, result := s.result,
             yourTurn := if s.phase = .PLAYING then some (s.turn = some .black) else none }

/-! ## Operations -/

/-- An argument of an operation: a number, or something else. -/
inductive Arg
  | number (n : ℤ)
  | other

def Arg.safeInteger? : Arg → Option ℤ
  | .number n => if -(2 ^ 53 - 1) ≤ n ∧ n ≤ 2 ^ 53 - 1 then some n else none
  | .other => none

structure Options where
  windowDefaultS : ℤ := 45
  windowMaxS : ℤ := 300

def isLower (c : Char) : Bool := 'a' ≤ c ∧ c ≤ 'z'
def isUpper (c : Char) : Bool := 'A' ≤ c ∧ c ≤ 'Z'
def isNumeral (c : Char) : Bool := '0' ≤ c ∧ c ≤ '9'

/-- One character, then at most 63 more. -/
def matchesName (first rest : Char → Bool) (s : String) : Bool :=
  match s.toList with
  | [] => false
  | c :: cs => first c && cs.length ≤ 63 && cs.all rest

/-- `/^[a-z0-9][a-z0-9_-]{0,63}$/` -/
def isRoomId : String → Bool :=
  matchesName (fun c => isLower c || isNumeral c) fun c => isLower c || isNumeral c || c = '_' || c = '-'

/-- `/^[A-Za-z0-9_][A-Za-z0-9_.-]{0,63}$/` -/
def isViewerName : String → Bool :=
  matchesName (fun c => isUpper c || isLower c || isNumeral c || c = '_') fun c =>
    isUpper c || isLower c || isNumeral c || c = '_' || c = '.' || c = '-'

/-- `length` counts UTF-16 units. -/
def utf16Length (s : String) : ℕ := (s.toList.map fun c => if 0x10000 ≤ c.toNat then 2 else 1).sum

def transition (s : Room) (target : Phase) : Except Error Room :=
  if target ∈ transitions s.phase then .ok { s with phase := target }
  else .error (.closed ("invalid_transition_" ++ s.phase.name ++ "_to_" ++ target.name))

/-- What a transaction puts, and its answer. -/
abbrev Committed := Except Error (Room × Snapshot)

def commit (s : Room) : Committed := do
  let snapshot ← spectatorSnapshot s
  return (s, snapshot)

def outcomeOf (b : Board) : Outcome :=
  match winnerOf b with
  | none => .draw
  | some .black => .viewer_win
  | some .white => .ai_win

def finishInternal (s : Room) (endedAt : String) : Committed := do
  let board ← ofRules (validated s.board)
  let counts := score board
  let next ← transition { s with
    board := some board, turn := none, outcome := some (outcomeOf board),
    result := some { black := counts.black, white := counts.white, outcome := outcomeOf board, endedAt := endedAt },
    endedAt := some endedAt } .FINISHED
  commit next

def openRoom (o : Options) (now : String) (roomId viewer : Option String) (windowSeconds : Option Arg)
    (stored : Option Room) : Committed := do
  let state := stored.getD initial
  require (state.phase = .IDLE) "room_not_idle"
  require (roomId.any isRoomId) "invalid_room_id"
  require (viewer.any isViewerName) "invalid_viewer_name"
  match (windowSeconds.getD (.number o.windowDefaultS)).safeInteger? with
  | none => .error (.closed "invalid_window")
  | some ws =>
    require (1 ≤ ws ∧ ws ≤ o.windowMaxS) "invalid_window"
    let next ← transition { state with
      roomId := roomId, viewer := viewer, moveWindowSeconds := some ws, openedAt := some now, board := some newBoard,
      turn := some .black, movesPlayed := 0, outcome := none, result := none, failureReason := none,
      endedAt := none } .ROOM_OPEN
    commit next

def startMatch (now : String) : Option Room → Committed
  | none => .error (.closed "room_not_open")
  | some state => do
    require (state.phase = .ROOM_OPEN) "room_not_open"
    let next ← transition { state with
      board := some newBoard, turn := some .black, movesPlayed := 0, startedAt := some now, moveDeadlineAt := none } .PLAYING
    commit next

/-- How the loop of the replies ends. -/
inductive Stop
  | viewer
  | noMoves
  | cutOff
  deriving DecidableEq

/-- The AI plays until the viewer can reply; `left` is what remains of the 80 moves. -/
def aiReplies : ℕ → Board → ℕ → Except RulesError (Board × ℕ × Stop)
  | 0, board, movesPlayed => .ok (board, movesPlayed, .cutOff)
  | left + 1, board, movesPlayed => do
    let reply ← aiChooseMove board .white (some (legalMoves board .white))
    let board ← applyMove board .white reply.1 reply.2
    match nextSeat board .white with
    | none => .ok (board, movesPlayed + 1, .noMoves)
    | some .white => aiReplies left board (movesPlayed + 1)
    | some .black => .ok (board, movesPlayed + 1, .viewer)

/-- Row and column, as the operation checks them before it reads the state. -/
def moveArguments (row col : Arg) : Except Error (ℤ × ℤ) :=
  match row.safeInteger?, col.safeInteger? with
  | some r, some c =>
    if r < 0 ∨ r ≥ 8 ∨ c < 0 ∨ c ≥ 8 then .error (.closed "invalid_move") else .ok (r, c)
  | _, _ => .error (.closed "invalid_move")

/-- The viewer's move; every error of the rules is an illegal move. -/
def viewerBoard (s : Room) (row col : ℤ) : Except Error Board :=
  match (do let b ← validated s.board; applyMove b .black row col) with
  | .ok b => .ok b
  | .error _ => .error (.closed "illegal_move")

def viewerMove (now : String) (row col : Arg) (stored : Option Room) : Committed := do
  let (row, col) ← moveArguments row col
  let state := stored.getD initial
  require (state.phase = .PLAYING) "not_playing"
  require (state.turn = some .black) "not_your_turn"
  let board ← viewerBoard state row col
  let movesPlayed := state.movesPlayed + 1
  match nextSeat board .black with
  | none => finishInternal { state with board := some board, movesPlayed := movesPlayed } now
  | some .black =>
    commit { state with board := some board, turn := some .black, movesPlayed := movesPlayed, moveDeadlineAt := none }
  | some .white =>
    match ← ofRules (aiReplies (80 - movesPlayed) board movesPlayed) with
    | (board, movesPlayed, .viewer) =>
      commit { state with board := some board, turn := some .black, movesPlayed := movesPlayed, moveDeadlineAt := none }
    | (board, movesPlayed, _) => finishInternal { state with board := some board, movesPlayed := movesPlayed } now

def openOrPlaying (s : Room) : Bool := s.phase = .ROOM_OPEN ∨ s.phase = .PLAYING

def fail (now : String) (reason : Option String) (stored : Option Room) : Committed := do
  require (reason.any fun r => utf16Length r ≠ 0 && utf16Length r ≤ 256) "invalid_reason"
  match stored with
  | none => .error (.closed "not_open_or_playing")
  | some state =>
    require (openOrPlaying state) "not_open_or_playing"
    let next ← transition { state with failureReason := reason, outcome := some .aborted, endedAt := some now } .FAILED
    commit next

def timeout (now : String) : Option Room → Committed
  | none => .error (.closed "not_open_or_playing")
  | some state => do
    require (openOrPlaying state) "not_open_or_playing"
    let next ← transition { state with outcome := some .timeout, endedAt := some now } .TIMEOUT
    commit next

/-! ## Runs -/

inductive Call
  | openRoom (roomId viewer : Option String) (windowSeconds : Option Arg)
  | startMatch
  | viewerMove (row col : Arg)
  | fail (reason : Option String)
  | timeout

def perform (o : Options) (now : String) : Call → Option Room → Committed
  | .openRoom roomId viewer windowSeconds, s => openRoom o now roomId viewer windowSeconds s
  | .startMatch, s => startMatch now s
  | .viewerMove row col, s => viewerMove now row col s
  | .fail reason, s => fail now reason s
  | .timeout, s => timeout now s

/-- A transaction that is given up puts nothing. -/
def step (o : Options) (s : Option Room) (call : String × Call) : Option Room :=
  match perform o call.1 call.2 s with
  | .ok (next, _) => some next
  | .error _ => s

/-- The stored state after these calls, each with its time. -/
def stored (o : Options) (calls : List (String × Call)) : Option Room := calls.foldl (step o) none

/-! ## What every stored state satisfies -/

/-- The outcome is the one of these numbers of discs. -/
def Outcome.Agrees (black white : ℕ) : Outcome → Prop
  | .viewer_win => white < black
  | .ai_win => black < white
  | .draw => black = white
  | .aborted | .timeout => False

structure Sound (s : Room) : Prop where
  board : s.phase ≠ .IDLE ∧ ∃ b, s.board = some b ∧ discs b = 4 + s.movesPlayed
  playing : s.phase = .PLAYING → s.turn = some .black ∧ ∀ b, s.board = some b → CanMove b .black
  finished : s.phase = .FINISHED → ∀ b, s.board = some b → (∀ p, ¬ CanMove b p) ∧
    ∃ outcome endedAt, s.outcome = some outcome ∧ outcome.Agrees (score b).black (score b).white ∧
      s.result = some ⟨(score b).black, (score b).white, outcome, endedAt⟩

export Fallible (bind_ok)

theorem require_bind {α : Type} {c : Bool} {code : String} {f : Unit → Except Error α} {a : α}
    (h : (require c code >>= f) = .ok a) : c = true ∧ f () = .ok a := by
  cases c with
  | false => cases h
  | true => exact ⟨rfl, h⟩

variable {s next room : Room} {b : Board} {n : ℕ} {row col : Arg} {t : Square}

theorem transition_ok {target : Phase} (h : transition s target = .ok next) :
    target ∈ transitions s.phase ∧ next = { s with phase := target } := by
  unfold transition at h
  split at h
  · next ht =>
    cases h
    exact ⟨ht, rfl⟩
  · cases h

theorem commit_eq {snapshot : Snapshot} (h : commit s = .ok (next, snapshot)) : next = s := by
  obtain ⟨a, -, h⟩ := bind_ok h
  cases h
  rfl

/-- A state with a played board can be shown. -/
theorem commit_ok (hb : s.board = some b) (h4 : 4 ≤ discs b) : ∃ snapshot, commit s = .ok (s, snapshot) := by
  unfold commit spectatorSnapshot
  split
  · exact ⟨_, rfl⟩
  · rw [hb, getD_some, validateBoard_eq h4]
    exact ⟨_, rfl⟩

theorem discs_newBoard : discs newBoard = 4 := by decide

theorem canMove_newBoard : CanMove newBoard .black := legalMoves_ne_nil.mp (by decide)

/-- Closing a match without a result keeps what is known of its board. -/
theorem Sound.close (hs : Sound s) (hb : next.board = s.board) (hm : next.movesPlayed = s.movesPlayed)
    (hp : next.phase = .FAILED ∨ next.phase = .TIMEOUT) : Sound next where
  board := by
    refine ⟨by rcases hp with hp | hp <;> simp [hp], ?_⟩
    rw [hb, hm]
    exact hs.board.2
  playing h := by rcases hp with hp | hp <;> simp [hp] at h
  finished h := by rcases hp with hp | hp <;> simp [hp] at h

variable {o : Options} {now : String} {s : Option Room} {next : Room} {snapshot : Snapshot}

theorem openRoom_ok {roomId viewer : Option String} {windowSeconds : Option Arg}
    (h : openRoom o now roomId viewer windowSeconds s = .ok (next, snapshot)) :
    next.phase = .ROOM_OPEN ∧ next.board = some newBoard ∧ next.movesPlayed = 0 := by
  obtain ⟨-, h⟩ := require_bind h
  obtain ⟨-, h⟩ := require_bind h
  obtain ⟨-, h⟩ := require_bind h
  split at h
  · cases h
  · obtain ⟨-, h⟩ := require_bind h
    obtain ⟨a, ha, h⟩ := bind_ok h
    obtain ⟨-, rfl⟩ := transition_ok ha
    cases commit_eq h
    exact ⟨rfl, rfl, rfl⟩

theorem startMatch_ok (h : startMatch now s = .ok (next, snapshot)) :
    next.phase = .PLAYING ∧ next.board = some newBoard ∧ next.movesPlayed = 0 ∧ next.turn = some .black := by
  cases s with
  | none => cases h
  | some s =>
    obtain ⟨-, h⟩ := require_bind h
    obtain ⟨a, ha, h⟩ := bind_ok h
    obtain ⟨-, rfl⟩ := transition_ok ha
    cases commit_eq h
    exact ⟨rfl, rfl, rfl, rfl⟩

theorem fail_ok {reason : Option String} (h : fail now reason s = .ok (next, snapshot)) :
    ∃ room, s = some room ∧ next.phase = .FAILED ∧ next.board = room.board ∧ next.movesPlayed = room.movesPlayed := by
  obtain ⟨-, h⟩ := require_bind h
  cases s with
  | none => cases h
  | some room =>
    obtain ⟨-, h⟩ := require_bind h
    obtain ⟨a, ha, h⟩ := bind_ok h
    obtain ⟨-, rfl⟩ := transition_ok ha
    cases commit_eq h
    exact ⟨room, rfl, rfl, rfl, rfl⟩

theorem timeout_ok (h : timeout now s = .ok (next, snapshot)) :
    ∃ room, s = some room ∧ next.phase = .TIMEOUT ∧ next.board = room.board ∧ next.movesPlayed = room.movesPlayed := by
  cases s with
  | none => cases h
  | some room =>
    obtain ⟨-, h⟩ := require_bind h
    obtain ⟨a, ha, h⟩ := bind_ok h
    obtain ⟨-, rfl⟩ := transition_ok ha
    cases commit_eq h
    exact ⟨room, rfl, rfl, rfl, rfl⟩

/-! ## One move and its replies -/

/-- The AI moves as long as it is its turn. -/
def Replies : Position → Position → Prop := Relation.ReflTransGen (Play .white)

/-- One viewer move and the replies to it lead from the one board to the other, where the turn is not the AI's. -/
def Exchange (b b' : Board) (turn : Option Player) : Prop :=
  turn ≠ some .white ∧ ∃ mid, Play .black ⟨b, some .black⟩ mid ∧ Replies mid ⟨b', turn⟩

/-- Whose turn it is when the loop ends. -/
def Stop.turn : Stop → Option Player
  | .viewer => some .black
  | .noMoves => none
  | .cutOff => some .white

/-- The loop ends, within the 80 moves and without an error, where the viewer can reply or the match is over. -/
theorem aiReplies_spec {left : ℕ} (hleft : 80 - n ≤ left) (hn : discs b = 4 + n)
    (hb : CanMove b .white) :
    ∃ b' n' stop, aiReplies left b n = .ok (b', n', stop) ∧ stop ≠ .cutOff ∧ discs b' = 4 + n' ∧
      Replies ⟨b, some .white⟩ ⟨b', stop.turn⟩ ∧ Next b' .white stop.turn := by
  induction left generalizing b n with
  | zero =>
    have := discs_le b
    omega
  | succ left ih =>
    obtain ⟨t, hchoice, ht⟩ := aiChooseMove_legal (by omega) hb
    have happly := applyMove_of_legal (by omega) ht
    have hdiscs : discs (after b .white t) = 4 + (n + 1) := by rw [discs_after ht, hn]; omega
    have hnext := nextSeat_spec (after b .white t) .white
    simp only [aiReplies, hchoice, happly, bind, Except.bind]
    cases hseat : nextSeat (after b .white t) .white with
    | none =>
      rw [hseat] at hnext
      exact ⟨_, _, _, rfl, nofun, hdiscs, .single (.move t ht hnext), hnext⟩
    | some q =>
      rw [hseat] at hnext
      cases q with
      | black => exact ⟨_, _, _, rfl, nofun, hdiscs, .single (.move t ht hnext), hnext⟩
      | white =>
        obtain ⟨b', n', stop, hrun, hstop, hd, hreplies, hlast⟩ := ih (by omega) hdiscs hnext.1
        exact ⟨b', n', stop, hrun, hstop, hd, .head (.move t ht hnext) hreplies, hlast⟩

theorem outcomeOf_agrees (b : Board) : (outcomeOf b).Agrees (score b).black (score b).white := by
  unfold outcomeOf winnerOf
  split <;> rename_i h
  · split at h
    · cases h
    · split at h
      · cases h
      · simp only [Outcome.Agrees]
        omega
  · split at h
    · assumption
    · split at h <;> cases h
  · split at h
    · cases h
    · split at h
      · assumption
      · cases h

theorem moveArguments_error {e : Error} (h : moveArguments row col = .error e) : ∃ code, e = .closed code := by
  unfold moveArguments at h
  split at h
  · split at h
    · cases h
      exact ⟨_, rfl⟩
    · cases h
  · cases h
    exact ⟨_, rfl⟩

theorem moveArguments_square (t : Square) : moveArguments (.number t.1) (.number t.2) = .ok (↑t.1, ↑t.2) := by
  obtain ⟨⟨i, hi⟩, j, hj⟩ := t
  have hrow : Arg.safeInteger? (.number (i : ℤ)) = some (i : ℤ) := if_pos (by omega)
  have hcol : Arg.safeInteger? (.number (j : ℤ)) = some (j : ℤ) := if_pos (by omega)
  simp only [moveArguments, hrow, hcol]
  exact if_neg (by omega)

theorem moveArguments_ok {r c : ℤ} (h : moveArguments row col = .ok (r, c)) :
    row = .number r ∧ col = .number c := by
  unfold moveArguments at h
  split at h
  · next r' c' hr hc =>
    split at h
    · cases h
    · cases h
      unfold Arg.safeInteger? at hr hc
      constructor
      · split at hr
        · split at hr
          · cases hr
            rfl
          · cases hr
        · cases hr
      · split at hc
        · split at hc
          · cases hc
            rfl
          · cases hc
        · cases hc
  · cases h

theorem viewerBoard_cases (hb : room.board = some b) (h4 : 4 ≤ discs b) (row col : ℤ) :
    (∃ code, viewerBoard room row col = .error (.closed code)) ∨
      ∃ t : Square, row = t.1 ∧ col = t.2 ∧ Legal b .black t ∧ viewerBoard room row col = .ok (after b .black t) := by
  simp only [viewerBoard, hb, validated, validateBoard_eq h4, bind, Except.bind]
  cases h : applyMove b .black row col with
  | error e => exact .inl ⟨_, rfl⟩
  | ok b' =>
    obtain ⟨t, hr, hc, ht, rfl⟩ := applyMove_eq_ok h
    exact .inr ⟨t, hr, hc, ht, rfl⟩

theorem viewerBoard_legal (hb : room.board = some b) (h4 : 4 ≤ discs b)
    (ht : Legal b .black t) : viewerBoard room t.1 t.2 = .ok (after b .black t) := by
  simp only [viewerBoard, hb, validated, validateBoard_eq h4, bind, Except.bind, applyMove_of_legal h4 ht]

/-- Board, number of moves and end of the loop after the viewer's move `t` and the replies to it. -/
noncomputable def exchange (b : Board) (n : ℕ) (t : Square) : Except RulesError (Board × ℕ × Stop) :=
  match nextSeat (after b .black t) .black with
  | none => .ok (after b .black t, n + 1, .noMoves)
  | some .black => .ok (after b .black t, n + 1, .viewer)
  | some .white => aiReplies (80 - (n + 1)) (after b .black t) (n + 1)

theorem exchange_spec (hn : discs b = 4 + n) (ht : Legal b .black t) :
    ∃ b' n' stop, exchange b n t = .ok (b', n', stop) ∧ stop ≠ .cutOff ∧ discs b' = 4 + n' ∧ Exchange b b' stop.turn ∧
      (stop = .viewer → CanMove b' .black) ∧ (stop = .noMoves → ∀ p, ¬ CanMove b' p) := by
  have hd : discs (after b .black t) = 4 + (n + 1) := by rw [discs_after ht, hn]; omega
  have hnext := nextSeat_spec (after b .black t) .black
  unfold exchange
  cases hseat : nextSeat (after b .black t) .black with
  | none =>
    rw [hseat] at hnext
    exact ⟨_, _, _, rfl, nofun, hd, ⟨nofun, _, .move t ht hnext, .refl⟩, nofun, fun _ => hnext⟩
  | some q =>
    rw [hseat] at hnext
    cases q with
    | black => exact ⟨_, _, _, rfl, nofun, hd, ⟨nofun, _, .move t ht hnext, .refl⟩, fun _ => hnext.1, nofun⟩
    | white =>
      obtain ⟨b', n', stop, hrun, hstop, hd', hreplies, hlast⟩ := aiReplies_spec (le_refl (80 - (n + 1))) hd hnext.1
      refine ⟨b', n', stop, hrun, hstop, hd', ⟨?_, _, .move t ht hnext, hreplies⟩, ?_, ?_⟩
      · cases stop with
        | viewer | noMoves => simp [Stop.turn]
        | cutOff => exact absurd rfl hstop
      · rintro rfl
        exact hlast.1
      · rintro rfl
        exact hlast

/-- What is put when the loop has ended. -/
def settle (room : Room) (now : String) : Board × ℕ × Stop → Committed
  | (board, movesPlayed, .viewer) =>
    commit { room with board := some board, turn := some .black, movesPlayed := movesPlayed, moveDeadlineAt := none }
  | (board, movesPlayed, _) => finishInternal { room with board := some board, movesPlayed := movesPlayed } now

theorem viewerMove_legal (hp : room.phase = .PLAYING) (hturn : room.turn = some .black)
    (hb : room.board = some b) (h4 : 4 ≤ discs b) (ht : Legal b .black t) (now : String) :
    viewerMove now (.number t.1) (.number t.2) (some room) = ofRules (exchange b room.movesPlayed t) >>= settle room now := by
  unfold viewerMove exchange
  rw [moveArguments_square]
  simp only [bind, Except.bind, getD_some]
  rw [show require (room.phase = .PLAYING) "not_playing" = .ok () by simp [require, hp],
    show require (room.turn = some .black) "not_your_turn" = .ok () by simp [require, hturn], viewerBoard_legal hb h4 ht]
  simp only
  cases nextSeat (after b .black t) .black with
  | none => rfl
  | some q => cases q <;> rfl

/-- What is settled after an exchange is a sound state with its board. -/
theorem settle_ok (now : String) {stop : Stop} (hp : room.phase = .PLAYING) (hstop : stop ≠ .cutOff)
    (hd : discs b = 4 + n) (hv : stop = .viewer → CanMove b .black) (ho : stop = .noMoves → ∀ p, ¬ CanMove b p) :
    ∃ next snapshot, settle room now (b, n, stop) = .ok (next, snapshot) ∧ Sound next ∧ next.board = some b ∧
      next.movesPlayed = n ∧ (stop = .viewer → next.phase = .PLAYING ∧ next.outcome = room.outcome ∧ next.result = room.result) ∧
      (stop = .noMoves → next.phase = .FINISHED ∧ next.outcome = some (outcomeOf b) ∧
        next.result = some ⟨(score b).black, (score b).white, outcomeOf b, now⟩) := by
  cases stop with
  | cutOff => exact absurd rfl hstop
  | viewer =>
    obtain ⟨snapshot, hok⟩ := commit_ok (s := { room with
      board := some b, turn := some .black, movesPlayed := n, moveDeadlineAt := none }) rfl (by omega : 4 ≤ discs b)
    refine ⟨_, snapshot, hok, ⟨⟨by simp [hp], b, rfl, hd⟩, fun _ => ⟨rfl, fun b' he => ?_⟩, by simp [hp]⟩, rfl, rfl,
      fun _ => ⟨hp, rfl, rfl⟩, nofun⟩
    exact some.inj he ▸ hv rfl
  | noMoves =>
    have hvalid : validateBoard b = .ok b := validateBoard_eq (by omega)
    let next : Room := { room with
      phase := .FINISHED, board := some b, turn := none, movesPlayed := n, outcome := some (outcomeOf b),
      result := some ⟨(score b).black, (score b).white, outcomeOf b, now⟩, endedAt := some now }
    obtain ⟨snapshot, hok⟩ := commit_ok (s := next) rfl (by omega : 4 ≤ discs b)
    refine ⟨next, snapshot, ?_, ⟨⟨nofun, b, rfl, hd⟩, nofun, fun _ b' he => ?_⟩, rfl, rfl, nofun, fun _ => ⟨rfl, rfl, rfl⟩⟩
    · rw [← hok]
      simp only [settle, finishInternal, validated, hvalid, ofRules, transition, hp, transitions, bind, Except.bind]
      rfl
    · cases he
      exact ⟨ho rfl, outcomeOf b, now, rfl, outcomeOf_agrees b, rfl⟩

/-- What the operation makes of a legal move. -/
def Answered (b : Board) (next : Room) : Prop :=
  Sound next ∧ ∃ b', next.board = some b' ∧
    (next.phase = .PLAYING ∧ Exchange b b' (some .black) ∨ next.phase = .FINISHED ∧ Exchange b b' none)

/-- A legal move is played and answered. -/
theorem viewerMove_answered (hs : Sound room) (hp : room.phase = .PLAYING)
    (hb : room.board = some b) (ht : Legal b .black t) (now : String) :
    ∃ next snapshot, viewerMove now (.number t.1) (.number t.2) (some room) = .ok (next, snapshot) ∧ Answered b next := by
  obtain ⟨-, b', hb', hd⟩ := hs.board
  cases hb'.symm.trans hb
  obtain ⟨b', n', stop, hx, hstop, hd', hex, hv, ho⟩ := exchange_spec hd ht
  obtain ⟨next, snapshot, hok, hsound, hbd, -, hvn, hon⟩ := settle_ok now hp hstop hd' hv ho
  refine ⟨next, snapshot, ?_, hsound, b', hbd, ?_⟩
  · rw [viewerMove_legal hp (hs.playing hp).1 hb (by omega) ht, hx]
    exact hok
  · cases stop with
    | cutOff => exact absurd rfl hstop
    | viewer => exact .inl ⟨(hvn rfl).1, hex⟩
    | noMoves => exact .inr ⟨(hon rfl).1, hex⟩

variable (hs : ∀ room, s = some room → Sound room)

include hs

/-- A move is refused with a code, or it is a legal move of a match that is played. -/
theorem viewerMove_cases (now : String) (row col : Arg) :
    (∃ code, viewerMove now row col s = .error (.closed code)) ∨
      ∃ (room : Room) (b : Board) (t : Square), s = some room ∧ room.phase = .PLAYING ∧ room.board = some b ∧
        row = .number t.1 ∧ col = .number t.2 ∧ Legal b .black t := by
  cases hargs : moveArguments row col with
  | error e =>
    obtain ⟨code, rfl⟩ := moveArguments_error hargs
    exact .inl ⟨code, by simp only [viewerMove, hargs, bind, Except.bind]⟩
  | ok arguments =>
    obtain ⟨r, c⟩ := arguments
    by_cases hp : (s.getD initial).phase = .PLAYING
    swap
    · exact .inl ⟨"not_playing", by simp [viewerMove, hargs, require, hp, bind, Except.bind]⟩
    cases s with
    | none => cases hp
    | some room =>
      rw [getD_some] at hp
      obtain ⟨-, b, hb, hd⟩ := (hs room rfl).board
      obtain ⟨hturn, -⟩ := (hs room rfl).playing hp
      rcases viewerBoard_cases hb (by omega) r c with ⟨code, he⟩ | ⟨t, rfl, rfl, ht, -⟩
      · exact .inl ⟨code, by simp [viewerMove, hargs, require, hp, hturn, he, bind, Except.bind]⟩
      · obtain ⟨rfl, rfl⟩ := moveArguments_ok hargs
        exact .inr ⟨room, b, t, rfl, hp, hb, rfl, rfl, ht⟩

/-! ## Every run -/

/-- Every operation leaves a sound state. -/
theorem sound_perform {call : Call}
    (h : perform o now call s = .ok (next, snapshot)) : Sound next := by
  cases call with
  | openRoom roomId viewer windowSeconds =>
    obtain ⟨hp, hb, hm⟩ := openRoom_ok h
    exact ⟨⟨by simp [hp], _, hb, by rw [hm, discs_newBoard]⟩, by simp [hp], by simp [hp]⟩
  | startMatch =>
    obtain ⟨hp, hb, hm, ht⟩ := startMatch_ok h
    refine ⟨⟨by simp [hp], _, hb, by rw [hm, discs_newBoard]⟩, fun _ => ⟨ht, fun b he => ?_⟩, by simp [hp]⟩
    rw [hb] at he
    exact some.inj he ▸ canMove_newBoard
  | viewerMove row col =>
    rcases viewerMove_cases hs now row col with ⟨code, he⟩ | ⟨room, b, t, rfl, hp, hb, rfl, rfl, ht⟩
    · exact nomatch he.symm.trans h
    · obtain ⟨_, _, he, ha⟩ := viewerMove_answered (hs room rfl) hp hb ht now
      cases he.symm.trans h
      exact ha.1
  | fail reason =>
    obtain ⟨room, rfl, hp, hb, hm⟩ := fail_ok h
    exact (hs room rfl).close hb hm (.inl hp)
  | timeout =>
    obtain ⟨room, rfl, hp, hb, hm⟩ := timeout_ok h
    exact (hs room rfl).close hb hm (.inr hp)

theorem step_sound (call : String × Call) :
    ∀ room, step o s call = some room → Sound room := by
  intro room h
  unfold step at h
  split at h
  · next next snapshot hok =>
    cases h
    exact sound_perform hs hok
  · exact hs room h

omit hs

theorem sound_stored (o : Options) (calls : List (String × Call)) : ∀ room, stored o calls = some room → Sound room := by
  induction calls using List.reverseRecOn with
  | nil => exact fun _ h => nomatch h
  | append_singleton calls call ih =>
    unfold stored
    rw [List.foldl_append]
    exact step_sound ih call

/-- **The room plays Othello.** After any calls, with any arguments and at any times: the stored state is sound; a
rejected call changes nothing; no error of the rules leaves `viewerMove`, and its loop neither reaches the cut-off nor
fails; and a move that is accepted is an exchange of Othello, after which the viewer is to move or the match is over. -/
theorem plays_othello (o : Options) (calls : List (String × Call)) :
    (∀ room, stored o calls = some room → Sound room) ∧
    (∀ now call e, perform o now call (stored o calls) = .error e → step o (stored o calls) (now, call) = stored o calls) ∧
    (∀ now row col text, viewerMove now row col (stored o calls) ≠ .error (.rules text)) ∧
    (∀ room b t, stored o calls = some room → room.phase = .PLAYING → room.board = some b → Legal b .black t →
      nextSeat (after b .black t) .black = some .white → ∃ b' n' stop,
        aiReplies (80 - (room.movesPlayed + 1)) (after b .black t) (room.movesPlayed + 1) = .ok (b', n', stop) ∧
          stop ≠ .cutOff) ∧
    ∀ now row col room b next snapshot, stored o calls = some room → room.board = some b →
      viewerMove now row col (stored o calls) = .ok (next, snapshot) → Answered b next := by
  have hsound := sound_stored o calls
  refine ⟨hsound, fun now call e h => ?_, fun now row col text h => ?_, fun room b t hroom hp hb ht hseat => ?_,
    fun now row col room b next snapshot hroom hb h => ?_⟩
  · simp only [step, h]
  · rcases viewerMove_cases hsound now row col with ⟨code, he⟩ | ⟨room, b, t, hroom, hp, hb, rfl, rfl, ht⟩
    · rw [he] at h
      cases h
    · rw [hroom] at h
      obtain ⟨_, _, he, -⟩ := viewerMove_answered (hsound room hroom) hp hb ht now
      rw [he] at h
      cases h
  · obtain ⟨-, b', hb', hd⟩ := (hsound room hroom).board
    rw [hb] at hb'
    cases hb'
    have hnext := nextSeat_spec (after b .black t) .black
    rw [hseat] at hnext
    obtain ⟨b', n', stop, hrun, hstop, -⟩ := aiReplies_spec (le_refl (80 - (room.movesPlayed + 1)))
      (by rw [discs_after ht, hd]; omega) hnext.1
    exact ⟨b', n', stop, hrun, hstop⟩
  · rcases viewerMove_cases hsound now row col with ⟨code, he⟩ | ⟨room', b', t, hroom', hp, hb', rfl, rfl, ht⟩
    · exact nomatch he.symm.trans h
    · cases hroom'.symm.trans hroom
      cases hb'.symm.trans hb
      rw [hroom] at h
      obtain ⟨_, _, he, ha⟩ := viewerMove_answered (hsound room hroom) hp hb ht now
      cases he.symm.trans h
      exact ha

end Docich.Othello
