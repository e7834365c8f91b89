import Docich.Othello.Room

/-!
# The Othello corner in Python, and its lockstep with the room

`flips_for`, `legal_moves`, `score` and `winner_of` have the loops of `rules.js` (`flips`, `legalMoves`, `score`,
`winnerOf`); what they check around them is here.

- `openRoom`, `startMatch`, `recordMove`, `aiTurn`, `finish`, `fail`, `timeout`: the state machine of the corner, which
  changes its state in place;
- `Agree`: what the room and the corner have in common;
- `lockstep`: after the same calls they agree, and accept the same calls.
-/

namespace Docich.Othello.Corner

/-! ## The state machine -/

structure State where
  phase : Phase
  room_id : Option String
  viewer : Option String
  board : Option Board
  turn : Option Player
  moves_played : ℕ
  move_window_seconds : Option ℤ
  move_deadline_at : Option String
  opened_at : Option String
  started_at : Option String
  ended_at : Option String
  outcome : Option Outcome
  result : Option Result
  failure_reason : Option String

def newState : State where
  phase := .IDLE
  room_id := none
  viewer := none
  board := none
  turn := none
  moves_played := 0
  move_window_seconds := none
  move_deadline_at := none
  opened_at := none
  started_at := none
  ended_at := none
  outcome := none
  result := none
  failure_reason := none

/-- The texts of `OthelloCornerError`. -/
abbrev CornerError := String

/-- A function that changes the state it is given; what it changed before it raises stays. -/
abbrev M := EStateM CornerError State

def ofExcept {α : Type} : Except CornerError α → M α
  | .ok a => pure a
  | .error e => throw e

/-- `raise` unless the condition holds. -/
def check (c : Bool) (e : CornerError) : M Unit := if c then pure () else throw e

/-- `_board` of what the state holds. -/
def boardOf : Option Board → Except CornerError Board
  | none => .error "invalid board"
  | some b => .ok b

def flipsFor (b : Board) (player : Player) (row col : ℤ) : Except CornerError (List Square) :=
  if ¬ (0 ≤ row ∧ row ≤ 7) then .error "invalid move row"
  else if ¬ (0 ≤ col ∧ col ≤ 7) then .error "invalid move col"
  else match square? row col with
    | none => .ok []
    | some s => .ok (flips b player s)

def validateBoardCounts (b : Board) : Except CornerError Unit :=
  if 64 - (squares.countP fun s => b s = .empty) < 4 then .error "board lost its starting discs" else .ok ()

def applyMove (b : Board) (player : Player) (row col : ℤ) : Except CornerError Board := do
  let flipped ← flipsFor b player row col
  match square? row col with
  | none => .error "illegal move"
  | some s =>
    if flipped = [] then .error "illegal move"
    else
      let new := put b player (s :: flipped)
      validateBoardCounts new
      return new

/-- The candidates are taken as they come when none are given. -/
def aiChooseMove (b : Board) (player : Player) (moves : Option (List Square)) : Except CornerError Square :=
  match heaviest (match moves with | none => legalMoves b player | some moves => moves.insertionSort Before) none with
  | none => .error "no legal move"
  | some s => .ok s

def transition (target : Phase) : M Unit := do
  let s ← get
  check (target ∈ transitions s.phase) ("invalid transition " ++ s.phase.name ++ " -> " ++ target.name)
  set { s with phase := target }

/-- `_text`: between one character and the limit. -/
def text (value : Option String) (e : CornerError) (limit : ℕ) : Except CornerError String :=
  match value with
  | none => .error e
  | some s => if 1 ≤ s.length ∧ s.length ≤ limit then .ok s else .error e

/-- `_int` within bounds. -/
def integer (value : Arg) (e : CornerError) (lo hi : ℤ) : Except CornerError ℤ :=
  match value with
  | .other => .error e
  | .number n => if lo ≤ n ∧ n ≤ hi then .ok n else .error e

def openRoom (room_id viewer : Option String) (window_seconds : Option Arg) (now : String) : M Unit := do
  let s ← get
  check (s.phase = .IDLE) "open_room requires IDLE phase"
  let rid ← ofExcept (text room_id "invalid room id" 64)
  let name ← ofExcept (text viewer "invalid viewer name" 64)
  let ws ← ofExcept (integer (window_seconds.getD (.number 45)) "invalid window_seconds" 1 300)
  modify fun s => { s with
    room_id := some rid, viewer := some name, move_window_seconds := some ws, opened_at := some now, board := some newBoard,
    turn := some .black, moves_played := 0, outcome := none, result := none, failure_reason := none, ended_at := none }
  transition .ROOM_OPEN

def startMatch (now : String) : M Unit := do
  let s ← get
  check (s.phase = .ROOM_OPEN) "start_match requires ROOM_OPEN phase"
  modify fun s => { s with
    board := some newBoard, turn := some .black, moves_played := 0, started_at := some now, move_deadline_at := none }
  transition .PLAYING

/-- `finish` as it is called here: the outcome is the one of the board. -/
def finish (now : String) : M Unit := do
  let s ← get
  check (s.phase = .PLAYING) "finish requires PLAYING phase"
  let counts := score (s.board.getD newBoard)
  let board ← ofExcept (boardOf s.board)
  let outcome := outcomeOf board
  modify fun s => { s with
    outcome := some outcome,
    result := some { black := counts.black, white := counts.white, outcome := outcome, endedAt := now },
    ended_at := some now }
  transition .FINISHED

def moverOf (by_ai : Bool) : Player := if by_ai then .white else .black

def recordMove (row col : ℤ) (by_ai : Bool) (now : String) : M Unit := do
  let s ← get
  check (s.phase = .PLAYING) "record_move requires PLAYING phase"
  let board ← ofExcept (boardOf s.board)
  check s.turn.isSome "invalid turn"
  let mover := moverOf by_ai
  check (s.turn = some mover) "not your turn"
  if s.moves_played ≥ 80 then finish now
  else
    let board ← ofExcept (applyMove board mover row col)
    modify fun s => { s with board := some board }
    modify fun s => { s with moves_played := s.moves_played + 1 }
    modify fun s => { s with move_deadline_at := none }
    if legalMoves board (opponent mover) ≠ [] then modify fun s => { s with turn := some (opponent mover) }
    else if legalMoves board mover ≠ [] then modify fun s => { s with turn := some mover }
    else finish now

/-- The loop of `ai_turn`; `left` is what remains of the 80 moves. -/
def aiLoop (now : String) : ℕ → M Unit
  | 0 => do
    let s ← get
    if s.turn = some .white ∧ s.phase = .PLAYING then finish now else pure ()
  | left + 1 => do
    let s ← get
    if s.turn = some .white ∧ s.phase = .PLAYING then
      let board ← ofExcept (boardOf s.board)
      if legalMoves board .white = [] then
        if legalMoves board .black ≠ [] then modify fun s => { s with turn := some .black, move_deadline_at := none }
        else finish now
      else
        let move ← ofExcept (aiChooseMove board .white none)
        recordMove move.1 move.2 true now
        aiLoop now left
    else pure ()

def aiTurn (now : String) : M Unit := do
  let s ← get
  check (s.phase = .PLAYING) "ai_turn requires PLAYING phase"
  check (s.turn = some .white) "not ai turn"
  aiLoop now (80 - s.moves_played)

def openOrPlaying (s : State) : Bool := s.phase = .ROOM_OPEN ∨ s.phase = .PLAYING

def fail (reason : Option String) (now : String) : M Unit := do
  let s ← get
  check (openOrPlaying s) "fail requires an open or playing room"
  let reason ← ofExcept (text reason "invalid failure reason" 256)
  modify fun s => { s with failure_reason := some reason }
  modify fun s => { s with outcome := some .aborted, ended_at := some now }
  transition .FAILED

def timeout (now : String) : M Unit := do
  let s ← get
  check (openOrPlaying s) "timeout requires an open or playing room"
  modify fun s => { s with outcome := some .timeout, ended_at := some now }
  transition .TIMEOUT

/-- A viewer's move, and the AI's turn whenever the turn is the AI's. -/
def viewerMove (row col : Arg) (now : String) : M Unit :=
  match row, col with
  | .number row, .number col => do
    recordMove row col false now
    let s ← get
    if s.phase = .PLAYING ∧ s.turn = some .white then aiTurn now else pure ()
  | .other, _ => throw "invalid move row"
  | _, .other => throw "invalid move col"

def perform (now : String) : Call → M Unit
  | .openRoom roomId viewer windowSeconds => openRoom roomId viewer windowSeconds now
  | .startMatch => startMatch now
  | .viewerMove row col => viewerMove row col now
  | .fail reason => fail reason now
  | .timeout => timeout now

/-! ## Programs -/

variable {α : Type} {p p' : State} {now : String}

theorem get_bind (f : State → M α) : (get >>= f) p = f p p := rfl

theorem modify_bind (g : State → State) (f : PUnit → M α) : (modify g >>= f) p = f ⟨⟩ (g p) := rfl

theorem check_bind (c : Bool) (e : CornerError) (f : Unit → M α) :
    (check c e >>= f) p = if c then f () p else .error e p := by
  cases c <;> rfl

theorem ofExcept_bind_ok {β : Type} {x : Except CornerError β} {a : β} (h : x = .ok a) (f : β → M α) :
    (ofExcept x >>= f) p = f a p := by
  rw [h]
  rfl

theorem ofExcept_bind_error {β : Type} {x : Except CornerError β} {e : CornerError} (h : x = .error e) (f : β → M α) :
    (ofExcept x >>= f) p = .error e p := by
  rw [h]
  rfl

theorem bind_of_ok {m : M α} {β : Type} {f : α → M β} {a : α} (h : m p = .ok a p') : (m >>= f) p = f a p' := by
  simp only [bind, EStateM.bind, h]

theorem transition_eq (target : Phase) (p : State) :
    transition target p = if target ∈ transitions p.phase then .ok () { p with phase := target }
      else .error ("invalid transition " ++ p.phase.name ++ " -> " ++ target.name) p := by
  unfold transition
  rw [get_bind, check_bind]
  simp only [decide_eq_true_eq]
  rfl

/-! ## The rules -/

theorem discs_eq (b : Board) : 64 - (squares.countP fun s => b s = .empty) = discs b := by
  have h := List.length_eq_countP_add_countP (l := squares) (fun s => b s = .empty)
  have h64 : squares.length = 64 := by decide
  rw [h64] at h
  have hdiscs : discs b = squares.countP fun s => ¬ decide (b s = .empty) = true := by simp [discs]
  rw [hdiscs]
  omega

theorem flipsFor_square (b : Board) (player : Player) (t : Square) : flipsFor b player t.1 t.2 = .ok (flips b player t) := by
  obtain ⟨⟨i, hi⟩, j, hj⟩ := t
  unfold flipsFor
  rw [if_neg (by simp; omega), if_neg (by simp; omega), square?_self]

theorem applyMove_of_legal {b : Board} {player : Player} {t : Square} (h4 : 4 ≤ discs b) (ht : Legal b player t) :
    applyMove b player t.1 t.2 = .ok (after b player t) := by
  have hcounts : validateBoardCounts (after b player t) = .ok () :=
    if_neg (by rw [discs_eq, discs_after ht]; omega)
  simp only [applyMove, flipsFor_square, square?_self, flips_ne_nil.mpr ht, if_false, put_eq_after ht, hcounts, bind,
    Except.bind, pure, Except.pure]

theorem applyMove_eq_ok {b b' : Board} {player : Player} {row col : ℤ} (h : applyMove b player row col = .ok b') :
    ∃ t : Square, row = t.1 ∧ col = t.2 ∧ Legal b player t ∧ b' = after b player t := by
  obtain ⟨flipped, hf, h⟩ := bind_ok h
  split at h
  · cases h
  · next t ht =>
    obtain ⟨hr, hc⟩ := square?_eq_some.mp ht
    subst hr hc
    rw [flipsFor_square] at hf
    cases hf
    split at h
    · cases h
    · next hne =>
      obtain ⟨_, -, h⟩ := bind_ok h
      cases h
      exact ⟨t, rfl, rfl, flips_ne_nil.mp hne, put_eq_after (flips_ne_nil.mp hne)⟩

/-- The legal moves come row by row, as the room sorts them. -/
theorem legalMoves_sorted (b : Board) (player : Player) :
    (legalMoves b player).insertionSort Before = legalMoves b player := by
  refine List.Pairwise.insertionSort_eq (List.Pairwise.filter _ ?_)
  decide

/-- Both sides choose the same move. -/
theorem aiChooseMove_eq {b : Board} {player : Player} (h4 : 4 ≤ discs b) :
    aiChooseMove b player none = Othello.aiChooseMove b player (some (legalMoves b player)) := by
  simp only [aiChooseMove, Othello.aiChooseMove, validateBoard_eq h4, Option.getD_some, legalMoves_sorted, bind,
    Except.bind] <;> rfl

/-! ## What the functions do -/

theorem finish_eq {b : Board} (hp : p.phase = .PLAYING) (hb : p.board = some b) :
    finish now p = .ok () { p with
      phase := .FINISHED, outcome := some (outcomeOf b),
      result := some ⟨(score b).black, (score b).white, outcomeOf b, now⟩, ended_at := some now } := by
  unfold finish
  rw [get_bind, check_bind, if_pos (by simp [hp]), ofExcept_bind_ok (a := b) (by simp [boardOf, hb]), modify_bind, transition_eq]
  simp [hp, hb, transitions]

/-- The state after a move of `player` to the board `b`, before it is settled whose turn it is. -/
def moved (p : State) (b : Board) : State :=
  { p with board := some b, moves_played := p.moves_played + 1, move_deadline_at := none }

theorem recordMove_legal (now : String) (by_ai : Bool) {b : Board} {t : Square} (hp : p.phase = .PLAYING) (hb : p.board = some b)
    (hturn : p.turn = some (moverOf by_ai)) (hn : p.moves_played < 80) (h4 : 4 ≤ discs b) (ht : Legal b (moverOf by_ai) t) :
    recordMove t.1 t.2 by_ai now p =
      match nextSeat (after b (moverOf by_ai) t) (moverOf by_ai) with
      | some q => .ok () { moved p (after b (moverOf by_ai) t) with turn := some q }
      | none => finish now (moved p (after b (moverOf by_ai) t)) := by
  unfold recordMove
  rw [get_bind, check_bind, if_pos (by simp [hp]), ofExcept_bind_ok (a := b) (by simp [boardOf, hb]), check_bind,
    if_pos (by simp [hturn]), check_bind, if_pos (by simp [hturn]), if_neg (by omega),
    ofExcept_bind_ok (applyMove_of_legal h4 ht), modify_bind, modify_bind, modify_bind]
  unfold nextSeat
  split
  · rfl
  · split
    · rfl
    · rfl

/-- A viewer's move that is not a legal one raises before anything is changed. -/
theorem recordMove_illegal (now : String) {row col : ℤ} (hn : p.moves_played < 80)
    (h : ¬ ∃ (b : Board) (t : Square), p.phase = .PLAYING ∧ p.turn = some .black ∧ p.board = some b ∧ row = t.1 ∧ col = t.2 ∧
      Legal b .black t) : ∃ e, recordMove row col false now p = .error e p := by
  unfold recordMove
  rw [get_bind, check_bind]
  split
  · next hp =>
    cases hb : p.board with
    | none => exact ⟨_, ofExcept_bind_error rfl _⟩
    | some b =>
      rw [ofExcept_bind_ok (x := boardOf (some b)) (a := b) rfl, check_bind]
      split
      · rw [check_bind]
        split
        · next hturn =>
          rw [if_neg (by omega)]
          cases hx : applyMove b (moverOf false) row col with
          | error e => exact ⟨e, ofExcept_bind_error rfl _⟩
          | ok b' =>
            obtain ⟨t, hr, hc, ht, -⟩ := applyMove_eq_ok hx
            exact absurd ⟨b, t, by simpa using hp, by simpa [moverOf] using hturn, hb, hr, hc, ht⟩ h
        · exact ⟨_, rfl⟩
      · exact ⟨_, rfl⟩
  · exact ⟨_, rfl⟩

/-- The state of a match that ended with this board. -/
def closed (p : State) (now : String) (b : Board) (n : ℕ) : State :=
  { p with
    phase := .FINISHED, board := some b, moves_played := n, move_deadline_at := none, outcome := some (outcomeOf b),
    result := some ⟨(score b).black, (score b).white, outcomeOf b, now⟩, ended_at := some now }

/-- The state in which the viewer is to move on this board. -/
def granted (p : State) (b : Board) (n : ℕ) : State :=
  { p with board := some b, moves_played := n, move_deadline_at := none, turn := some .black }

def settled (p : State) (now : String) : Board × ℕ × Stop → State
  | (b, n, .viewer) => granted p b n
  | (b, n, _) => closed p now b n

theorem aiLoop_idle {left : ℕ} (h : ¬ (p.turn = some .white ∧ p.phase = .PLAYING)) : aiLoop now left p = .ok () p := by
  cases left <;> rw [aiLoop, get_bind, if_neg h] <;> rfl

/-- The loop of the corner is the loop of the room. -/
theorem aiLoop_eq (now : String) {left : ℕ} {b : Board} (hp : p.phase = .PLAYING) (hturn : p.turn = some .white) (hb : p.board = some b)
    (hleft : 80 - p.moves_played ≤ left) (hn : discs b = 4 + p.moves_played) (hmove : CanMove b .white) :
    ∃ x, aiReplies left b p.moves_played = .ok x ∧ aiLoop now left p = .ok () (settled p now x) := by
  induction left generalizing p b with
  | zero =>
    have := discs_le b
    omega
  | succ left ih =>
    have hlt : p.moves_played < 80 := by
      have := discs_le b
      omega
    obtain ⟨t, hchoice, ht⟩ := aiChooseMove_legal (by omega) hmove
    have hd : discs (after b .white t) = 4 + (p.moves_played + 1) := by rw [discs_after ht, hn]; omega
    have hnext := nextSeat_spec (after b .white t) .white
    have hrecord := recordMove_legal now true hp hb hturn hlt (by omega) ht
    simp only [moverOf, if_true] at hrecord
    rw [aiLoop, get_bind, if_pos ⟨hturn, hp⟩, ofExcept_bind_ok (a := b) (by simp [boardOf, hb]),
      if_neg (legalMoves_ne_nil.mpr hmove), ofExcept_bind_ok ((aiChooseMove_eq (by omega : 4 ≤ discs b)).trans hchoice)]
    simp only [aiReplies, hchoice, Othello.applyMove_of_legal (by omega : 4 ≤ discs b) ht, bind, Except.bind]
    cases hseat : nextSeat (after b .white t) .white with
    | none =>
      rw [hseat] at hrecord
      refine ⟨_, rfl, ?_⟩
      rw [finish_eq (p := moved p (after b .white t)) hp rfl] at hrecord
      exact (bind_of_ok hrecord).trans (aiLoop_idle (by simp))
    | some q =>
      rw [hseat] at hrecord hnext
      cases q with
      | black => exact ⟨_, rfl, (bind_of_ok hrecord).trans (aiLoop_idle (by simp))⟩
      | white =>
        obtain ⟨x, hx, hloop⟩ := ih (p := { moved p (after b .white t) with turn := some .white }) hp rfl rfl
          (by simp only [moved]; omega) hd hnext.1
        refine ⟨x, hx, (bind_of_ok hrecord).trans (hloop.trans ?_)⟩
        obtain ⟨b', n', stop⟩ := x
        cases stop <;> simp [settled, granted, closed, moved, hturn]

/-- A legal move of the viewer and the AI's turn are what the room computes of it. -/
theorem viewerMove_legal (now : String) {b : Board} {t : Square} (hp : p.phase = .PLAYING) (hb : p.board = some b)
    (hturn : p.turn = some .black) (hn : discs b = 4 + p.moves_played) (ht : Legal b .black t) :
    ∃ b' n' stop turn, exchange b p.moves_played t = .ok (b', n', stop) ∧ stop ≠ .cutOff ∧
      viewerMove (.number t.1) (.number t.2) now p = .ok () { settled p now (b', n', stop) with turn := turn } ∧
      (stop = .viewer → turn = some .black) := by
  have hd : discs (after b .black t) = 4 + (p.moves_played + 1) := by rw [discs_after ht, hn]; omega
  have hnext := nextSeat_spec (after b .black t) .black
  have hlt : p.moves_played < 80 := by
    have := discs_le b
    omega
  have hrecord := recordMove_legal now false hp hb hturn hlt (by omega) ht
  simp only [moverOf, Bool.false_eq_true, if_false] at hrecord
  unfold viewerMove exchange
  cases hseat : nextSeat (after b .black t) .black with
  | none =>
    rw [hseat, finish_eq (p := moved p (after b .black t)) hp rfl] at hrecord
    refine ⟨_, _, _, p.turn, rfl, nofun, ?_, nofun⟩
    simp only [bind_of_ok hrecord, get_bind]
    rw [if_neg (by simp)]
    rfl
  | some q =>
    rw [hseat] at hrecord hnext
    cases q with
    | black =>
      refine ⟨_, _, _, some .black, rfl, nofun, ?_, fun _ => rfl⟩
      simp only [bind_of_ok hrecord, get_bind]
      rw [if_neg (by simp)]
      rfl
    | white =>
      obtain ⟨b', n', stop, hrun, hstop, -⟩ := aiReplies_spec (le_refl (80 - (p.moves_played + 1))) hd hnext.1
      obtain ⟨x, hx, hloop⟩ := aiLoop_eq now (p := { moved p (after b .black t) with turn := some .white }) hp rfl rfl
        (le_refl (80 - (p.moves_played + 1))) hd hnext.1
      obtain rfl : (b', n', stop) = x := Except.ok.inj (hrun.symm.trans hx)
      refine ⟨b', n', stop, if stop = .viewer then some .black else some .white, hrun, hstop, ?_, fun h => if_pos h⟩
      simp only [bind_of_ok hrecord, get_bind]
      rw [if_pos ⟨by simp [moved, hp], by simp⟩]
      unfold aiTurn
      rw [get_bind, check_bind, if_pos (by simp [moved, hp]), check_bind, if_pos (by simp)]
      refine hloop.trans ?_
      cases stop <;> simp [settled, granted, closed, moved]

/-! ## Lockstep -/

/-- What the room and the corner have in common. -/
structure Agree (w : Room) (p : State) : Prop where
  phase : w.phase = p.phase
  board : w.board = p.board
  moves : w.movesPlayed = p.moves_played
  outcome : w.outcome = p.outcome
  counts : w.result.map (fun r => (r.black, r.white, r.outcome)) = p.result.map fun r => (r.black, r.white, r.outcome)
  turn : w.phase = .PLAYING → w.turn = p.turn

/-- Arguments that both sides accept in some state; of a move, any integers. -/
def Accepted (o : Options) : Call → Prop
  | .viewerMove row col => ∃ r c : ℤ, row = .number r ∧ col = .number c
  | call => (∃ now s x, Othello.perform o now call s = .ok x) ∧ ∃ now p p', perform now call p = .ok () p'

/-- Both accept and agree afterwards, or both refuse and the corner is as before. -/
def Together (w : Committed) (m : EStateM.Result CornerError State Unit) (p : State) : Prop :=
  (∃ next snapshot p', w = .ok (next, snapshot) ∧ m = .ok () p' ∧ Agree next p') ∨ ∃ e e', w = .error e ∧ m = .error e' p

variable {o : Options} {s : Option Room} {room : Room}

theorem require_true {β : Type} {c : Bool} (h : c = true) (code : String) (f : Unit → Except Error β) :
    (require c code >>= f) = f () := by
  rw [h]
  rfl

theorem require_false {β : Type} {c : Bool} (h : c = false) (code : String) (f : Unit → Except Error β) :
    (require c code >>= f) = .error (.closed code) := by
  rw [h]
  rfl

theorem openRoom_together (ha : Agree (s.getD initial) p) {roomId viewer : Option String} {windowSeconds : Option Arg}
    (hargs : Accepted o (.openRoom roomId viewer windowSeconds)) (now now' : String) :
    Together (Othello.openRoom o now roomId viewer windowSeconds s) (openRoom roomId viewer windowSeconds now' p) p := by
  obtain ⟨⟨now₁, s₁, ⟨next₁, snapshot₁⟩, hw⟩, now₂, p₂, p₂', hc⟩ := hargs
  obtain ⟨-, hw⟩ := require_bind hw
  obtain ⟨hid, hw⟩ := require_bind hw
  obtain ⟨hname, hw⟩ := require_bind hw
  by_cases hidle : p.phase = .IDLE
  · left
    cases hws : (windowSeconds.getD (.number o.windowDefaultS)).safeInteger? with
    | none => simp [hws] at hw
    | some ws =>
      simp only [hws] at hw
      obtain ⟨hbound, -⟩ := require_bind hw
      have hphase : (s.getD initial).phase = .IDLE := ha.phase.trans hidle
      let next : Room := { s.getD initial with
        phase := .ROOM_OPEN, roomId := roomId, viewer := viewer, moveWindowSeconds := some ws, openedAt := some now,
        board := some newBoard, turn := some .black, movesPlayed := 0, outcome := none, result := none,
        failureReason := none, endedAt := none }
      obtain ⟨snapshot, hcommit⟩ := commit_ok (s := next) rfl (by rw [discs_newBoard])
      have hw' : Othello.openRoom o now roomId viewer windowSeconds s = .ok (next, snapshot) := by
        unfold Othello.openRoom
        rw [require_true (by simp [hphase]), require_true hid, require_true hname]
        simp only [hws]
        rw [require_true hbound, ← hcommit]
        simp only [Othello.transition, hphase, transitions, List.mem_singleton, if_true]
        rfl
      change openRoom _ _ _ _ _ = _ at hc
      unfold openRoom at hc ⊢
      rw [get_bind, check_bind] at hc ⊢
      rw [if_pos (by simp [hidle])]
      split at hc
      swap
      · cases hc
      cases hrid : text roomId "invalid room id" 64 with
      | error e => rw [ofExcept_bind_error hrid] at hc; cases hc
      | ok rid =>
        cases hnm : text viewer "invalid viewer name" 64 with
        | error e => rw [ofExcept_bind_ok hrid, ofExcept_bind_error hnm] at hc; cases hc
        | ok name =>
          cases hwin : integer (windowSeconds.getD (.number 45)) "invalid window_seconds" 1 300 with
          | error e => rw [ofExcept_bind_ok hrid, ofExcept_bind_ok hnm, ofExcept_bind_error hwin] at hc; cases hc
          | ok ws' =>
            rw [ofExcept_bind_ok (x := .ok rid) (a := rid) rfl, ofExcept_bind_ok (x := .ok name) (a := name) rfl,
              ofExcept_bind_ok (x := .ok ws') (a := ws') rfl, modify_bind, transition_eq,
              if_pos (by simp [hidle, transitions])]
            exact ⟨next, snapshot, _, hw', rfl, rfl, rfl, rfl, rfl, rfl, fun _ => rfl⟩
  · right
    have hphase : (s.getD initial).phase ≠ .IDLE := fun h => hidle (ha.phase.symm.trans h)
    refine ⟨_, "open_room requires IDLE phase", require_false (by simp [hphase]) _ _, ?_⟩
    unfold openRoom
    rw [get_bind, check_bind, if_neg (by simp [hidle])]

theorem startMatch_together (ha : Agree (s.getD initial) p) (now now' : String) :
    Together (Othello.startMatch now s) (startMatch now' p) p := by
  by_cases hopen : p.phase = .ROOM_OPEN
  · left
    cases s with
    | none => exact nomatch ha.phase.trans hopen
    | some room =>
      have hphase : room.phase = .ROOM_OPEN := ha.phase.trans hopen
      let next : Room := { room with
        phase := .PLAYING, board := some newBoard, turn := some .black, movesPlayed := 0, startedAt := some now,
        moveDeadlineAt := none }
      obtain ⟨snapshot, hcommit⟩ := commit_ok (s := next) rfl (by rw [discs_newBoard])
      have hp : startMatch now' p = .ok () { p with
          phase := .PLAYING, board := some newBoard, turn := some .black, moves_played := 0, started_at := some now',
          move_deadline_at := none } := by
        unfold startMatch
        rw [get_bind, check_bind, if_pos (by simp [hopen]), modify_bind, transition_eq, if_pos (by simp [hopen, transitions])]
      refine ⟨next, snapshot, _, ?_, hp, rfl, rfl, rfl, ha.outcome, ha.counts, fun _ => rfl⟩
      simp only [Othello.startMatch]
      rw [require_true (by simp [hphase]), ← hcommit]
      simp only [Othello.transition, hphase, transitions, List.mem_cons, true_or, if_true]
      rfl
  · right
    have hp : startMatch now' p = .error "start_match requires ROOM_OPEN phase" p := by
      unfold startMatch
      rw [get_bind, check_bind, if_neg (by simp [hopen])]
    cases s with
    | none => exact ⟨_, _, rfl, hp⟩
    | some room =>
      have hphase : room.phase ≠ .ROOM_OPEN := fun h => hopen (ha.phase.symm.trans h)
      exact ⟨_, _, require_false (by simp [hphase]) _ _, hp⟩

/-- A room that is open or played can be left for these phases. -/
theorem transition_of_open {w : Room} (h : Othello.openOrPlaying w = true) {target : Phase}
    (ht : target = .FAILED ∨ target = .TIMEOUT) : target ∈ transitions w.phase := by
  simp only [Othello.openOrPlaying, decide_eq_true_eq] at h
  rcases h with h | h <;> rcases ht with rfl | rfl <;> simp [h, transitions]

theorem openOrPlaying_eq {w : Room} (h : w.phase = p.phase) : openOrPlaying p = Othello.openOrPlaying w := by
  simp only [openOrPlaying, Othello.openOrPlaying, h]

theorem fail_together (hs : ∀ room, s = some room → Sound room) (ha : Agree (s.getD initial) p) {reason : Option String}
    (hargs : Accepted o (.fail reason)) (now now' : String) : Together (Othello.fail now reason s) (fail reason now' p) p := by
  obtain ⟨⟨now₁, s₁, ⟨next₁, snapshot₁⟩, hw⟩, now₂, p₂, p₂', hc⟩ := hargs
  obtain ⟨hreason, -⟩ := require_bind hw
  have hopen := openOrPlaying_eq ha.phase
  cases ho : openOrPlaying p with
  | true =>
    left
    rw [ho] at hopen
    cases s with
    | none => cases hopen
    | some room =>
      rw [Option.getD_some] at ha hopen
      obtain ⟨hphase, b, hb, hd⟩ := (hs room rfl).board
      let next : Room := { room with phase := .FAILED, failureReason := reason, outcome := some .aborted, endedAt := some now }
      obtain ⟨snapshot, hcommit⟩ := commit_ok (s := next) hb (by omega)
      have hw' : Othello.fail now reason (some room) = .ok (next, snapshot) := by
        unfold Othello.fail
        rw [require_true hreason]
        simp only
        rw [require_true hopen.symm, ← hcommit]
        simp only [Othello.transition, transition_of_open hopen.symm (.inl rfl), if_true]
        rfl
      change fail _ _ _ = _ at hc
      unfold fail at hc ⊢
      rw [get_bind, check_bind] at hc ⊢
      rw [if_pos ho]
      split at hc
      swap
      · cases hc
      cases htext : text reason "invalid failure reason" 256 with
      | error e => rw [ofExcept_bind_error htext] at hc; cases hc
      | ok r =>
        have htarget : Phase.FAILED ∈ transitions p.phase := ha.phase ▸ transition_of_open hopen.symm (.inl rfl)
        rw [ofExcept_bind_ok (x := .ok r) (a := r) rfl, modify_bind, modify_bind, transition_eq, if_pos htarget]
        exact ⟨next, snapshot, _, hw', rfl, rfl, ha.board, ha.moves, rfl, ha.counts, fun h => by cases h⟩
  | false =>
    right
    rw [ho] at hopen
    have hp : fail reason now' p = .error "fail requires an open or playing room" p := by
      unfold fail
      rw [get_bind, check_bind, if_neg (by simp [ho])]
    unfold Othello.fail
    rw [require_true hreason]
    cases s with
    | none => exact ⟨_, _, rfl, hp⟩
    | some room => exact ⟨_, _, require_false hopen.symm _ _, hp⟩

theorem timeout_together (hs : ∀ room, s = some room → Sound room) (ha : Agree (s.getD initial) p) (now now' : String) :
    Together (Othello.timeout now s) (timeout now' p) p := by
  have hopen := openOrPlaying_eq ha.phase
  cases ho : openOrPlaying p with
  | true =>
    left
    rw [ho] at hopen
    cases s with
    | none => cases hopen
    | some room =>
      rw [Option.getD_some] at ha hopen
      obtain ⟨hphase, b, hb, hd⟩ := (hs room rfl).board
      let next : Room := { room with phase := .TIMEOUT, outcome := some .timeout, endedAt := some now }
      obtain ⟨snapshot, hcommit⟩ := commit_ok (s := next) hb (by omega)
      have htarget : Phase.TIMEOUT ∈ transitions p.phase := ha.phase ▸ transition_of_open hopen.symm (.inr rfl)
      have hp : timeout now' p = .ok () { p with phase := .TIMEOUT, outcome := some .timeout, ended_at := some now' } := by
        unfold timeout
        rw [get_bind, check_bind, if_pos ho, modify_bind, transition_eq, if_pos htarget]
      refine ⟨next, snapshot, _, ?_, hp, rfl, ha.board, ha.moves, rfl, ha.counts, fun h => nomatch h⟩
      simp only [Othello.timeout]
      rw [require_true hopen.symm, ← hcommit]
      simp only [Othello.transition, transition_of_open hopen.symm (.inr rfl), if_true]
      rfl
  | false =>
    right
    rw [ho] at hopen
    have hp : timeout now' p = .error "timeout requires an open or playing room" p := by
      unfold timeout
      rw [get_bind, check_bind, if_neg (by simp [ho])]
    cases s with
    | none => exact ⟨_, _, rfl, hp⟩
    | some room => exact ⟨_, _, require_false hopen.symm _ _, hp⟩

theorem viewerMove_together (hs : ∀ room, s = some room → Sound room) (ha : Agree (s.getD initial) p) (row col : ℤ)
    (now now' : String) :
    Together (Othello.viewerMove now (.number row) (.number col) s) (viewerMove (.number row) (.number col) now' p) p := by
  by_cases h : ∃ (b : Board) (t : Square), p.phase = .PLAYING ∧ p.turn = some .black ∧ p.board = some b ∧ row = t.1 ∧
      col = t.2 ∧ Legal b .black t
  · left
    obtain ⟨b, t, hp, hturn, hb, rfl, rfl, ht⟩ := h
    cases s with
    | none => exact nomatch ha.phase.trans hp
    | some room =>
      rw [Option.getD_some] at ha
      have hphase := ha.phase.trans hp
      obtain ⟨-, b', hb', hd⟩ := (hs room rfl).board
      cases hb'.symm.trans (ha.board.trans hb)
      obtain ⟨b', n', stop, turn, hx, hstop, hcorner, hturn'⟩ :=
        viewerMove_legal now' hp hb hturn (by rw [hd, ha.moves]) ht
      obtain ⟨b₁, n₁, stop₁, hx₁, -, hd', -, hv, ho⟩ := exchange_spec hd ht
      rw [ha.moves, hx] at hx₁
      cases hx₁
      obtain ⟨next, snapshot, hok, hsound, hbd, hn, hvn, hon⟩ := settle_ok now hphase hstop hd' hv ho
      have hroom := Othello.viewerMove_legal hphase ((hs room rfl).playing hphase).1 hb' (by omega) ht now
      rw [ha.moves, hx] at hroom
      refine ⟨next, snapshot, _, hroom.trans hok, hcorner, ?_⟩
      cases stop with
      | cutOff => exact absurd rfl hstop
      | viewer =>
        obtain ⟨h1, h2, h3⟩ := hvn rfl
        exact ⟨h1.trans hp.symm, hbd, hn, h2.trans ha.outcome, by rw [h3]; exact ha.counts,
          fun h => (hsound.playing h).1.trans (hturn' rfl).symm⟩
      | noMoves =>
        obtain ⟨h1, h2, h3⟩ := hon rfl
        exact ⟨h1, hbd, hn, h2, by rw [h3]; rfl, fun h => by rw [h1] at h; cases h⟩
  · right
    have hn : p.moves_played < 80 := by
      rw [← ha.moves]
      cases s with
      | none => decide
      | some room =>
        obtain ⟨-, b, -, hd⟩ := (hs room rfl).board
        have := discs_le b
        rw [Option.getD_some]
        omega
    obtain ⟨e', he'⟩ := recordMove_illegal now' hn h
    have hcorner : viewerMove (.number row) (.number col) now' p = .error e' p := by
      simp only [viewerMove, bind, EStateM.bind, he']
    rcases viewerMove_cases hs now (.number row) (.number col) with ⟨code, he⟩ | ⟨room, b, t, rfl, hp, hb, hr, hc, ht⟩
    · exact ⟨_, _, he, hcorner⟩
    · rw [Option.getD_some] at ha
      cases hr
      cases hc
      exact absurd ⟨b, t, ha.phase.symm.trans hp, (ha.turn hp).symm.trans ((hs room rfl).playing hp).1,
        ha.board.symm.trans hb, rfl, rfl, ht⟩ h

theorem perform_together (hs : ∀ room, s = some room → Sound room) (ha : Agree (s.getD initial) p) {call : Call}
    (hargs : Accepted o call) (now now' : String) :
    Together (Othello.perform o now call s) (perform now' call p) p := by
  cases call with
  | openRoom roomId viewer windowSeconds => exact openRoom_together ha hargs now now'
  | startMatch => exact startMatch_together ha now now'
  | viewerMove row col =>
    obtain ⟨r, c, rfl, rfl⟩ := hargs
    exact viewerMove_together hs ha r c now now'
  | fail reason => exact fail_together hs ha hargs now now'
  | timeout => exact timeout_together hs ha now now'

/-- The state of the corner after these calls; a call that raises leaves what it made of the state. -/
def played (calls : List (String × Call)) : State :=
  calls.foldl (fun p call => match perform call.1 call.2 p with | .ok _ p' | .error _ p' => p') newState

theorem agree_stored (o : Options) (calls : List ((String × String) × Call)) (hargs : ∀ c ∈ calls, Accepted o c.2) :
    Agree ((stored o (calls.map fun c => (c.1.1, c.2))).getD initial) (played (calls.map fun c => (c.1.2, c.2))) := by
  induction calls using List.reverseRecOn with
  | nil => exact ⟨rfl, rfl, rfl, rfl, rfl, fun h => nomatch h⟩
  | append_singleton calls call ih =>
    have ha := ih fun c hc => hargs c (List.mem_append_left _ hc)
    have hlast := hargs call (List.mem_append_right _ (List.mem_singleton_self call))
    have hsound := sound_stored o (calls.map fun c => (c.1.1, c.2))
    have htogether := perform_together hsound ha hlast call.1.1 call.1.2
    simp only [stored, played, List.map_append, List.map_cons, List.map_nil, List.foldl_append, List.foldl_cons,
      List.foldl_nil, step] at ha htogether ⊢
    rcases htogether with ⟨next, snapshot, p', hw, hc, hnext⟩ | ⟨e, e', hw, hc⟩
    · rw [hw, hc]
      exact hnext
    · rw [hw, hc]
      exact ha

/-- **Python and JavaScript stay in lockstep.** After the same calls, with arguments that both sides accept and at any
times, the room and the corner agree; a further call is accepted by both or refused by both, and the corner is left as
it was by a call that it refuses. -/
theorem lockstep (o : Options) (calls : List ((String × String) × Call)) (hargs : ∀ c ∈ calls, Accepted o c.2) :
    let w := stored o (calls.map fun c => (c.1.1, c.2))
    let p := played (calls.map fun c => (c.1.2, c.2))
    Agree (w.getD initial) p ∧
      ∀ call, Accepted o call → ∀ now now', Together (Othello.perform o now call w) (perform now' call p) p :=
  have ha := agree_stored o calls hargs
  ⟨ha, fun _ hcall now now' => perform_together (sound_stored o _) ha hcall now now'⟩

/-- A room is opened, a match is started, and the viewer plays d3. -/
def oneMove : List ((String × String) × Call) :=
  [(("t0", "t0"), .openRoom (some "room-1") (some "viewer") none), (("t1", "t1"), .startMatch),
   (("t2", "t2"), .viewerMove (.number 2) (.number 3))]

theorem lockstep_oneMove :
    Agree ((stored {} (oneMove.map fun c => (c.1.1, c.2))).getD initial) (played (oneMove.map fun c => (c.1.2, c.2))) := by
  refine (lockstep {} oneMove ?_).1
  simp only [oneMove, List.forall_mem_cons, List.not_mem_nil, false_implies, implies_true, and_true]
  exact ⟨⟨⟨"", none, _, rfl⟩, "", newState, _, rfl⟩,
    ⟨⟨"", some { initial with phase := .ROOM_OPEN }, _, rfl⟩, "", { newState with phase := .ROOM_OPEN }, _, rfl⟩,
    2, 3, rfl, rfl⟩

end Docich.Othello.Corner
