import Docich.Fallible
import Docich.Shogi.Pieces

/-!
# The replay of a game

`annotate` and `reconstruct` of `shogi_board`: the record of a game from its published moves, given only where the
rebuilt position is the published one. Where that has the standard pieces, the replay has them all along
(`reconstruct_standard`): no move loses a piece and the published position leaves no room for one more, except for a king
that captured itself, which SFEN does not write.
-/

namespace Docich.Shogi

open Wire List Fallible Option Function

/-! ## Names -/

def roleName : Role → Char
  | .P => '歩' | .L => '香' | .N => '桂' | .S => '銀' | .G => '金' | .B => '角' | .R => '飛' | .K => '玉'

def promotedName : Role → Text
  | .P => ['と'] | .L => ['成', '香'] | .N => ['成', '桂'] | .S => ['成', '銀'] | .G => ['?'] | .B => ['馬'] | .R => ['龍']
  | .K => ['玉']

def pieceName (p : Piece) : Text := if p.promoted then promotedName p.role else [roleName p.role]

def sideMark : Side → Char
  | .sente => '▲'
  | .gote => '△'

def rankKanji : List Char := ['一', '二', '三', '四', '五', '六', '七', '八', '九']

def squareName (s : Square) (same : Bool) : Text :=
  if same then ['同'] else [Char.ofNat (57 - s.slot), rankKanji.getD s.row '?']

def promotionAvailable (p : Piece) (origin target : Square) (side : Side) : Bool :=
  let zone (s : Square) : Bool := match side with
    | .sente => s.row ≤ 2
    | .gote => 6 ≤ s.row
  if p.promoted || !p.role.promotes then false else zone origin || zone target

/-- `notation`. -/
def kifuText (side : Side) (p : Piece) (same : Bool) : Usi → Text
  | .drop role target => [sideMark side] ++ squareName target same ++ [roleName role] ++ ['打']
  | .move origin target promote =>
    let name := if promote then pieceName { p with promoted := false } else pieceName p
    let suffix : Text := if promote then ['成'] else if promotionAvailable p origin target side then ['不', '成'] else []
    [sideMark side] ++ squareName target same ++ name ++ suffix

def cellText : Option Piece → Text
  | none => ['.', '.']
  | some p => [if p.promoted then '+' else '.', p.role.code p.side]

def snapshot (t : Board) : Text := ((List.finRange 9).flatMap t.cells).flatMap cellText

/-! ## The record -/

/-- One move of the record; `kifu` is its Japanese text. -/
structure Entry where
  n : ℕ
  side : Side
  usi : Text
  kifu : Text
  piece : Text
  captured : Option Text
  promote : Bool
  drop : Bool
  ms : Option ℤ
  board : Text

def maxMoves : ℕ := 512

def readSide : Option Json → Except BoardError Side
  | some (.string s) =>
    if s = "sente".toList then .ok .sente else if s = "gote".toList then .ok .gote else .error "invalid side"
  | some (.array _) | some (.object _) => .error "unhashable type"
  | _ => .error "invalid side"

/-- The text of a move entry, and its side. -/
def readEntry : Json → Except BoardError (Text × Option Json × Option Json)
  | .object fields =>
    match Dict.get fields "usi".toList with
    | some (.string usi) => .ok (usi, Dict.get fields "by".toList, Dict.get fields "ms".toList)
    | _ => .error "invalid move entry"
  | _ => .error "invalid move entry"

/-- `apply_move` on a move entry. -/
def applyEntry (p : Position) (move : Json) : Except BoardError (Position × Facts × Text × Side × Option Json) := do
  let (usi, by_, ms) ← readEntry move
  let side ← readSide by_
  let (p', facts) ← applyMove p usi side
  return (p', facts, usi, side, ms)

def millis : Option Json → Option ℤ
  | some (.int n) => some n
  | _ => none

def annotateFrom (p : Position) (number : ℕ) (previousTo : Option Square) : List Json → Except BoardError (List Entry)
  | [] => .ok []
  | move :: moves => do
    let (p', facts, usi, side, ms) ← applyEntry p move
    let toSquare := (readUsi usi).map Usi.target
    let entry : Entry :=
      { n := number, side := side, usi := usi
        kifu := ((readUsi usi).map (kifuText side facts.piece (toSquare = previousTo))).getD []
        piece := pieceName facts.piece, captured := facts.captured.map pieceName
        promote := facts.promote, drop := facts.drop, ms := millis ms, board := snapshot p'.squares }
    let rest ← annotateFrom p' (number + 1) toSquare moves
    return entry :: rest

def readMoves : Json → Except BoardError (List Json)
  | .array moves => if 1 ≤ moves.length ∧ moves.length ≤ maxMoves then .ok moves else .error "invalid move list"
  | _ => .error "invalid move list"

def annotate (moves : Json) : Except BoardError (List Entry) := do
  let moves ← readMoves moves
  annotateFrom startPosition 1 none moves

/-- The position after the moves, and the side that moved last. -/
def replay (p : Position) (last : Option Side) : List Json → Except BoardError (Position × Option Side)
  | [] => .ok (p, last)
  | move :: moves => do
    let (p', _, _, side, _) ← applyEntry p move
    replay p' (some side) moves

structure Kifu where
  start : Text
  final : Text
  moves : List Entry
  moveCount : ℕ

/-- Whose turn it is after the last move. -/
def turnAfter (last : Option Side) : Turn := if last = some .gote then .b else .w

def reconstruct (moves : Json) (finalSfen : Text) : Option Kifu :=
  if isSfen finalSfen then
    match annotate moves, readMoves moves with
    | .ok annotated, .ok items =>
      match replay startPosition none items with
      | .ok (p, last) =>
        let rebuilt := toSfen p.squares p.hands (turnAfter last) (items.length + 1)
        if (rebuilt.splitOn ' ').take 3 = (finalSfen.splitOn ' ').take 3 then
          some { start := standardStart, final := rebuilt, moves := annotated, moveCount := annotated.length }
        else none
      | .error _ => none
    | _, _ => none
  else none

/-! ## The replay -/

variable {p p' q : Position} {facts : Facts} {side : Side} {last last' l : Option Side}
    {moves items : List Json} {entries : List Entry} {finalSfen : Text} {kifu : Kifu}

theorem applyEntry_spec {move : Json} {usi : Text} {ms : Option Json}
    (h : applyEntry p move = .ok (p', facts, usi, side, ms)) :
    ∃ m, readUsi usi = some m ∧ play p side m = .ok (p', facts) ∧ ∀ target, m ≠ .drop .K target := by
  obtain ⟨⟨usi', by', ms'⟩, -, h⟩ := bind_ok h
  obtain ⟨side', -, h⟩ := bind_ok h
  obtain ⟨⟨q, facts'⟩, hm, h⟩ := bind_ok h
  cases h
  exact applyMove_spec hm

theorem replay_append {moves' : List Json} :
    replay p last (moves ++ moves') = replay p last moves >>= fun q => replay q.1 q.2 moves' := by
  induction moves generalizing p last with
  | nil => rfl
  | cons move moves ih =>
    simp only [cons_append, replay]
    cases applyEntry p move with
    | error e => rfl
    | ok q => exact ih

/-- No piece is lost in a replay, and no king comes to the board. -/
theorem replay_count (h : replay p last moves = .ok (q, last')) :
    (∀ role, p.count role ≤ q.count role) ∧ onBoard q.squares .K ≤ onBoard p.squares .K := by
  induction moves generalizing p last with
  | nil =>
    cases h
    exact ⟨fun _ => le_rfl, le_rfl⟩
  | cons move moves ih =>
    obtain ⟨⟨p₁, facts, usi, side, ms⟩, he, h⟩ := bind_ok h
    obtain ⟨m, -, hplay, hdrop⟩ := applyEntry_spec he
    obtain ⟨hcount, hking⟩ := ih h
    refine ⟨fun role => ?_, hking.trans (play_kings hplay hdrop)⟩
    have := play_count hplay role
    have := hcount role
    omega

/-- The record goes with the replay: each snapshot is the board after as many moves. -/
theorem annotateFrom_spec {number : ℕ} {previousTo : Option Square}
    (h : annotateFrom p number previousTo moves = .ok entries)
    (hr : replay p last moves = .ok (q, last')) :
    entries.length = moves.length ∧
      (∀ n (e : Entry), entries[n]? = some e → ∃ p₁ p₂ last₁ last₂ facts m, replay p last (moves.take n) = .ok (p₁, last₁) ∧
        replay p last (moves.take (n + 1)) = .ok (p₂, last₂) ∧ readUsi e.usi = some m ∧ play p₁ e.side m = .ok (p₂, facts) ∧
        e.board = snapshot p₂.squares) := by
  induction moves generalizing p number previousTo last entries with
  | nil =>
    cases h
    exact ⟨rfl, fun n e he => by simp at he⟩
  | cons move moves ih =>
    obtain ⟨⟨p₁, facts, usi, side, ms⟩, he, h⟩ := bind_ok h
    obtain ⟨rest, hrest, h⟩ := bind_ok h
    cases h
    have hstep : ∀ items, replay p last (move :: items) = replay p₁ (some side) items := by
      intro items
      rw [replay, he]
      rfl
    rw [hstep] at hr
    obtain ⟨hlen, hall⟩ := ih hrest hr
    obtain ⟨m, hu, hplay, -⟩ := applyEntry_spec he
    refine ⟨congrArg (· + 1) hlen, fun n e hn => ?_⟩
    cases n with
    | zero =>
      cases hn
      exact ⟨p, p₁, last, some side, facts, m, rfl, hstep [], hu, hplay, rfl⟩
    | succ n =>
      obtain ⟨p₂, p₃, last₂, last₃, facts', m', h1, h2, h3⟩ := hall n e hn
      exact ⟨p₂, p₃, last₂, last₃, facts', m', (hstep _).trans h1, (hstep _).trans h2, h3⟩

/-! ## Snapshots -/

/-- The two characters of a square. -/
def cellAt (board : Text) (s : Square) : Text := (board.drop (2 * (9 * s.row + s.slot))).take 2

theorem length_cellText (cell : Option Piece) : (cellText cell).length = 2 := by
  cases cell <;> rfl

/-- One of the pieces of a text whose pieces are of one length. -/
theorem piece_flatMap {α β : Type} {f : α → List β} {w : ℕ} (hw : ∀ a, (f a).length = w) (l : List α) (n : ℕ) {a : α}
    (h : l[n]? = some a) : ((l.flatMap f).drop (w * n)).take w = f a := by
  induction l generalizing n with
  | nil => simp at h
  | cons b l ih =>
    cases n with
    | zero =>
      cases h
      rw [flatMap_cons, Nat.mul_zero, drop_zero, ← hw a, take_left]
    | succ n =>
      have hdrop : w * (n + 1) = (f b).length + w * n := by rw [hw, Nat.mul_succ, Nat.add_comm]
      rw [flatMap_cons, hdrop, drop_length_add_append]
      exact ih n h

theorem cellAt_snapshot (t : Board) (s : Square) : cellAt (snapshot t) s = cellText (t s) := by
  apply piece_flatMap length_cellText
  have hcells : ∀ row, (t.cells row).length = 9 := fun row => by simp [Board.cells]
  have hrow := piece_flatMap hcells (List.finRange 9) s.row (a := s.row) (by simp)
  have hslot : (t.cells s.row)[(s.slot : ℕ)]? = some (t s) := by simp [Board.cells]
  rw [← hrow, List.getElem?_take_of_lt s.slot.isLt, List.getElem?_drop] at hslot
  exact hslot

/-- A move leaves the squares alone that it does not name. -/
def Usi.names (s : Square) : Usi → Prop
  | .move origin target _ => s = origin ∨ s = target
  | .drop _ target => s = target

theorem play_frame {m : Usi} (h : play p side m = .ok (p', facts)) {s : Square}
    (hs : ¬ m.names s) : p'.squares s = p.squares s := by
  rcases play_spec h with ⟨r, target, rfl, -, -, rfl, -, -⟩ | ⟨origin, target, promote, piece, rfl, -, -, -, rfl⟩
  · exact update_of_ne hs _ _
  · obtain ⟨ho, ht⟩ := not_or.mp hs
    show update (update p.squares origin none) target (some facts.piece) s = _
    rw [update_of_ne ht, update_of_ne ho]

/-! ## The record -/

/-- The snapshot before an entry. -/
def Kifu.before (kifu : Kifu) : ℕ → Text
  | 0 => snapshot startPosition.squares
  | n + 1 => ((kifu.moves[n]?).map Entry.board).getD []

/-- The pieces of a position as SFEN writes them. -/
def Position.shown (p : Position) (role : Role) : ℕ := onBoard p.squares role + held p.hands.written role

theorem written_of_ne {hands : Hands} {role : Role} (h : role ≠ .K) : held hands.written role = held hands role := by
  simp [held, Hands.written, h]

theorem written_king (hands : Hands) : held hands.written .K = 0 := rfl

/-- What a returned record says. -/
theorem reconstruct_spec {moves : Json} (h : reconstruct moves finalSfen = some kifu) :
    ∃ items p last turn, moves = .array items ∧ 1 ≤ items.length ∧ annotateFrom startPosition 1 none items = .ok kifu.moves ∧
      replay startPosition none items = .ok (p, last) ∧ isSfen finalSfen = true ∧
      (finalSfen.splitOn ' ').take 3 = [boardText p.squares, [Turn.letter turn], handText p.hands] := by
  unfold reconstruct at h
  split at h
  · next hsfen =>
    split at h
    · next annotated items ha hm =>
      split at h
      · next p last hr =>
        dsimp only at h
        split at h
        · next heq =>
          cases h
          obtain ⟨items', hm', hall⟩ := bind_ok ha
          obtain rfl : items' = items := by
            rw [hm] at hm'
            cases hm'
            rfl
          obtain ⟨l, rfl⟩ : ∃ l, moves = .array l := by
            cases moves with
            | array l => exact ⟨l, rfl⟩
            | _ => cases hm
          rw [readMoves] at hm
          split at hm
          · next hlen =>
            cases hm
            rw [splitOn_toSfen, take_succ_cons, take_succ_cons, take_succ_cons, take_zero] at heq
            exact ⟨_, p, last, turnAfter last, rfl, hlen.1, hall, hr, hsfen, heq.symm⟩
          · cases hm
        · cases h
      · cases h
    · cases h
  · cases h

/-- The published text is the position of the replay. -/
theorem parse_final {turn : Turn} (hs : isSfen finalSfen = true)
    (h : (finalSfen.splitOn ' ').take 3 = [boardText p.squares, [turn.letter], handText p.hands]) :
    parseSfen finalSfen = .ok (p.squares, turn, p.hands.written) := by
  unfold parseSfen
  rw [if_pos hs]
  split
  · next boardPart turn' handPart rest heq =>
    rw [heq] at h
    obtain ⟨rfl, rfl, rfl⟩ := h
    exact readParts_written _ _ _
  · next hno =>
    obtain ⟨a, b, c, rest, hsplit⟩ : ∃ a b c rest, finalSfen.splitOn ' ' = a :: b :: c :: rest := by
      rcases hcase : finalSfen.splitOn ' ' with _ | ⟨a, _ | ⟨b, _ | ⟨c, rest⟩⟩⟩
      · simp [hcase] at h
      · simp [hcase] at h
      · simp [hcase] at h
      · exact ⟨a, b, c, rest, rfl⟩
    exact (hno a b c rest hsplit).elim

/-- Where no move of the record stays on its square, the pieces are those of the start. -/
theorem count_of_moved (ha : annotateFrom startPosition 1 none items = .ok entries) (hr : replay startPosition none items = .ok (q, last)) (n : ℕ)
    (hs : ∀ e ∈ entries.take n, ¬ Stays e.usi)
    (hp : replay startPosition none (items.take n) = .ok (p, l)) (role : Role) : p.count role = standard role := by
  obtain ⟨hlen, hentries⟩ := annotateFrom_spec ha hr
  induction n generalizing p l with
  | zero =>
    cases hp
    exact count_start role
  | succ n ih =>
    cases he : entries[n]? with
    | none =>
      have hle : items.length ≤ n := by
        rw [← hlen]
        exact List.getElem?_eq_none_iff.mp he
      rw [take_of_length_le (by omega), ← take_of_length_le hle] at hp
      exact ih (fun e h => hs e (take_subset_take_left _ (Nat.le_succ n) h)) hp
    | some e =>
      obtain ⟨p₁, p₂, l₁, l₂, facts, m, h1, h2, hu, hplay, -⟩ := hentries n e he
      rw [hp] at h2
      cases h2
      have hmem : e ∈ entries.take (n + 1) := by
        rw [take_add_one, he]
        exact mem_append_right _ (mem_singleton.mpr rfl)
      have hstays : ¬ m.stays = true := fun h => hs e hmem ⟨m, hu, h⟩
      rw [play_count hplay, if_neg fun h => hstays h.1, Nat.add_zero]
      exact ih (fun e h => hs e (take_subset_take_left _ (Nat.le_succ n) h)) h1

/-- Between the start and a position that SFEN writes with the standard pieces, there are always these. -/
theorem shown_between {items' : List Json} {l₀ l' : Option Side}
    (hp : replay startPosition l₀ items = .ok (p, l)) (hq : replay p l items' = .ok (q, l'))
    (hstd : ∀ role, q.shown role = standard role) (role : Role) : p.shown role = standard role := by
  obtain ⟨hcount, hking⟩ := replay_count hp
  obtain ⟨hcount', hking'⟩ := replay_count hq
  have hstart := count_start role
  by_cases hr : role = .K
  · subst hr
    have hq := hstd .K
    unfold Position.shown at hq ⊢
    unfold Position.count at hstart
    rw [written_king] at hq ⊢
    omega
  · have hq := hstd role
    have h1 := hcount role
    have h2 := hcount' role
    unfold Position.shown at hq ⊢
    unfold Position.count at h1 h2 hstart
    rw [written_of_ne hr] at hq ⊢
    omega

/-- The snapshot before an entry is the board before its move. -/
theorem before_eq (ha : annotateFrom startPosition 1 none items = .ok kifu.moves) (hr : replay startPosition none items = .ok (q, last)) {n : ℕ}
    (hn : n ≤ items.length) (hp : replay startPosition none (items.take n) = .ok (p, l)) :
    kifu.before n = snapshot p.squares := by
  obtain ⟨hlen, hentries⟩ := annotateFrom_spec ha hr
  cases n with
  | zero =>
    cases hp
    rfl
  | succ n =>
    have hlt : n < kifu.moves.length := by omega
    obtain ⟨p₁, p₂, l₁, l₂, facts, m, -, h2, -, -, hb⟩ := hentries n _ (List.getElem?_eq_getElem hlt)
    rw [hp] at h2
    cases h2
    rw [Kifu.before, List.getElem?_eq_getElem hlt]
    exact hb

/-- **Where the published position has the standard pieces, the replay has them all along**, as SFEN writes them: a king in
hand is the only piece that it could have more of, and only a king that was moved onto its own square comes there. Each
snapshot is the one before it but for the squares of the move, and the last is the board of the published position. -/
theorem reconstruct_standard {moves : Json} {finalSfen : Text} {kifu : Kifu} {squares : Board} {turn : Turn} {hands : Hands}
    (h : reconstruct moves finalSfen = some kifu) (hf : parseSfen finalSfen = .ok (squares, turn, hands))
    (hstd : ∀ role, (Position.mk squares hands).count role = standard role) :
    ∃ items, moves = .array items ∧ kifu.moves.length = items.length ∧
      (∀ n ≤ items.length, ∃ p last, replay startPosition none (items.take n) = .ok (p, last) ∧
        (∀ role, p.shown role = standard role) ∧
        ((∀ e ∈ kifu.moves.take n, ¬ Stays e.usi) → ∀ role, p.count role = standard role)) ∧
      (∀ (n : ℕ) (e : Entry), kifu.moves[n]? = some e →
        (∃ p last, replay startPosition none (items.take (n + 1)) = .ok (p, last) ∧ e.board = snapshot p.squares) ∧
        ∃ m, readUsi e.usi = some m ∧ ∀ s, ¬ m.names s → cellAt e.board s = cellAt (kifu.before n) s) ∧
      (kifu.moves.getLast?).map Entry.board = some (snapshot squares) := by
  obtain ⟨items, q, last, turn', rfl, hpos, ha, hr, hsfen, hfields⟩ := reconstruct_spec h
  rw [parse_final hsfen hfields] at hf
  cases hf
  obtain ⟨hlen, hentries⟩ := annotateFrom_spec ha hr
  have hprefix : ∀ n, ∃ p l, replay startPosition none (items.take n) = .ok (p, l) ∧
      replay p l (items.drop n) = .ok (q, last) := by
    intro n
    rw [← take_append_drop n items, replay_append] at hr
    obtain ⟨⟨p, l⟩, h1, h2⟩ := bind_ok hr
    exact ⟨p, l, h1, h2⟩
  refine ⟨items, rfl, hlen, fun n hn => ?_, fun n e he => ?_, ?_⟩
  · obtain ⟨p, l, h1, h2⟩ := hprefix n
    exact ⟨p, l, h1, shown_between h1 h2 hstd, fun hs => count_of_moved ha hr n hs h1⟩
  · obtain ⟨p₁, p₂, l₁, l₂, facts, m, h1, h2, hu, hplay, hb⟩ := hentries n e he
    have hn : n < kifu.moves.length := (List.getElem?_eq_some_iff.mp he).1
    refine ⟨⟨p₂, l₂, h2, hb⟩, m, hu, fun s hs => ?_⟩
    rw [hb, before_eq ha hr (by omega) h1, cellAt_snapshot, cellAt_snapshot, play_frame hplay hs]
  · have hne : kifu.moves ≠ [] := by
      rw [← length_pos_iff]
      omega
    have hlast : kifu.moves[items.length - 1]? = some (kifu.moves.getLast hne) := by
      rw [← hlen, ← List.getLast?_eq_getElem?, List.getLast?_eq_some_getLast hne]
    obtain ⟨p₁, p₂, l₁, l₂, facts, m, -, h2, -, -, hb⟩ := hentries _ _ hlast
    rw [Nat.sub_add_cancel hpos, take_length, hr] at h2
    cases h2
    rw [List.getLast?_eq_some_getLast hne, map_some, hb]

def moveOf (usi by_ : String) : Json := .object [("usi".toList, .string usi.toList), ("by".toList, .string by_.toList)]

def pushed : Json := .array [moveOf "7g7f" "sente"]

def pushedBoard : Board :=
  Function.update (Function.update startBoard ⟨6, 2⟩ none) ⟨5, 2⟩ (some ⟨false, .P, .sente⟩)

theorem reconstruct_standard_pushed : ∃ kifu, reconstruct pushed (toSfen pushedBoard emptyHands .w 2) = some kifu ∧
    (kifu.moves.getLast?).map Entry.board = some (snapshot pushedBoard) := by
  have hsome : (reconstruct pushed (toSfen pushedBoard emptyHands .w 2)).isSome = true := by
    unfold reconstruct annotate
    rw [startPosition_eq]
    decide
  obtain ⟨kifu, hk⟩ := isSome_iff_exists.mp hsome
  have hf := parseSfen_toSfen pushedBoard emptyHands .w 2
  have hstd : ∀ role, (Position.mk pushedBoard emptyHands.written).count role = standard role := by
    intro role
    cases role <;> decide
  obtain ⟨_, _, _, _, _, hlast⟩ := reconstruct_standard hk hf hstd
  exact ⟨kifu, hk, hlast⟩

def kingStays : Json := .array [moveOf "5i5i" "sente"]

/-- A king that is moved onto its own square comes to the hand as well: the replay has three kings, and the published position
does not show it. -/
theorem reconstruct_three_kings : ∃ items kifu squares turn hands p last, kingStays = .array items ∧
    reconstruct kingStays (toSfen startBoard emptyHands .w 2) = some kifu ∧
    parseSfen (toSfen startBoard emptyHands .w 2) = .ok (squares, turn, hands) ∧
    (∀ role, (Position.mk squares hands).count role = standard role) ∧
    replay startPosition none (items.take 1) = .ok (p, last) ∧ p.count .K = 3 := by
  have hsome : (reconstruct kingStays (toSfen startBoard emptyHands .w 2)).isSome = true := by
    unfold reconstruct annotate
    rw [startPosition_eq]
    decide
  obtain ⟨kifu, hk⟩ := isSome_iff_exists.mp hsome
  have hf := parseSfen_toSfen startBoard emptyHands .w 2
  have hcount : (match replay ⟨startBoard, emptyHands⟩ none [moveOf "5i5i" "sente"] with
      | .ok (p, _) => decide (p.count .K = 3)
      | .error _ => false) = true := by decide
  split at hcount
  · next p last hr =>
    rw [← startPosition_eq] at hr
    refine ⟨[moveOf "5i5i" "sente"], kifu, startBoard, .w, emptyHands.written, p, last, rfl, hk, hf, ?_, hr, of_decide_eq_true hcount⟩
    intro role
    cases role <;> decide
  · cases hcount

end Docich.Shogi
