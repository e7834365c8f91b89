import Docich.Wire.Json

/-!
# The shogi board of a replay

`shogi_board`: a position as SFEN writes it, and the applier of USI moves. A square is its row and its slot in the row,
in the order in which SFEN lists them; a piece code is the piece with its side, which is the case of the letter.
-/

namespace Docich.Shogi

abbrev Text : Type := List Char

/-- The errors of the module, under their messages. -/
abbrev BoardError : Type := String

/-! ## Positions -/

inductive Side
  | sente
  | gote
  deriving DecidableEq

inductive Role
  | P | L | N | S | G | B | R | K
  deriving DecidableEq

structure Piece where
  promoted : Bool
  role : Role
  side : Side

structure Square where
  row : Fin 9
  slot : Fin 9
  deriving DecidableEq

def Square.equivProd : Square ≃ Fin 9 × Fin 9 where
  toFun s := (s.row, s.slot)
  invFun p := ⟨p.1, p.2⟩
  left_inv _ := rfl
  right_inv _ := rfl

instance : Fintype Square := Fintype.ofEquiv _ Square.equivProd.symm

abbrev Board : Type := Square → Option Piece

/-- How many pieces of a role a side holds; a role that the dictionary lacks counts 0. -/
abbrev Hands : Type := Side → Role → ℕ

structure Position where
  squares : Board
  hands : Hands

inductive Turn
  | b
  | w

/-! ## Letters -/

def Role.letter : Role → Char
  | .P => 'P' | .L => 'L' | .N => 'N' | .S => 'S' | .G => 'G' | .B => 'B' | .R => 'R' | .K => 'K'

def Role.lower : Role → Char
  | .P => 'p' | .L => 'l' | .N => 'n' | .S => 's' | .G => 'g' | .B => 'b' | .R => 'r' | .K => 'k'

def Role.code (role : Role) : Side → Char
  | .sente => role.letter
  | .gote => role.lower

def Piece.text (p : Piece) : Text := (if p.promoted then ['+'] else []) ++ [p.role.code p.side]

def Turn.letter : Turn → Char
  | .b => 'b'
  | .w => 'w'

def allRoles : List Role := [.P, .L, .N, .S, .G, .B, .R, .K]

/-- The roles that SFEN writes for a hand, in its order. -/
def handRoles : List Role := [.R, .B, .G, .S, .N, .L, .P]

/-- The role and the side that one of these letters stands for. -/
def readRole (roles : List Role) (c : Char) : Option (Role × Side) :=
  (roles.find? fun r => r.letter = c).map (·, .sente) <|> (roles.find? fun r => r.lower = c).map (·, .gote)

/-! ## SFEN -/

def maxSfen : ℕ := 200

/-- The characters of `SFEN`. -/
def isSfenChar (c : Char) : Bool := c.isAlphanum || c = '+' || c = '/' || c = ' ' || c = '-'

def isSfen (text : Text) : Bool := 1 ≤ text.length && text.length ≤ maxSfen && text.all isSfenChar

/-- One row of the board, written from a slot on. A slot past the row is kept as it is: only a piece has to stand
within the row. -/
def readRow (row : Fin 9) : ℕ → Text → Board → Except BoardError Board
  | slot, [], squares => if 9 < slot then .error "invalid sfen row width" else .ok squares
  | slot, char :: rest, squares =>
    if Wire.isNumeral char then readRow row (slot + Wire.valueOf [char]) rest squares
    else if char = '+' then
      match rest with
      | [] => .error "invalid sfen promotion"
      | char :: rest =>
        match readRole allRoles char with
        | none => .error "invalid sfen piece"
        | some (role, side) =>
          if h : slot < 9 then
            readRow row (slot + 1) rest (Function.update squares ⟨row, slot, h⟩ (some ⟨true, role, side⟩))
          else .error "invalid sfen row"
    else
      match readRole allRoles char with
      | none => .error "invalid sfen piece"
      | some (role, side) =>
        if h : slot < 9 then
          readRow row (slot + 1) rest (Function.update squares ⟨row, slot, h⟩ (some ⟨false, role, side⟩))
        else .error "invalid sfen row"

def readRows : List (Fin 9 × Text) → Board → Except BoardError Board
  | [], squares => .ok squares
  | (row, text) :: rows, squares => readRow row 0 text squares >>= readRows rows

def readHand : ℕ → Text → Hands → Except BoardError Hands
  | _, [], hands => .ok hands
  | count, char :: rest, hands =>
    if Wire.isNumeral char then readHand (count * 10 + Wire.valueOf [char]) rest hands
    else match readRole handRoles char with
      | none => .error "invalid sfen hand"
      | some (role, side) =>
        readHand 0 rest (Function.update hands side (Function.update (hands side) role
          (hands side role + if count = 0 then 1 else count)))

def emptyBoard : Board := fun _ => none

def emptyHands : Hands := fun _ _ => 0

def readTurn (turn : Text) : Except BoardError Turn :=
  if turn = ['b'] then .ok .b else if turn = ['w'] then .ok .w else .error "invalid sfen turn"

def readBoard (boardPart : Text) : Except BoardError Board :=
  let rows := boardPart.splitOn '/'
  if rows.length = 9 then readRows ((List.finRange 9).zip rows) emptyBoard else .error "invalid sfen board"

def readHands (handPart : Text) : Except BoardError Hands :=
  if handPart = ['-'] then .ok emptyHands else readHand 0 handPart emptyHands

/-- `parse_sfen` on the three parts that it reads. -/
def readParts (boardPart turn handPart : Text) : Except BoardError (Board × Turn × Hands) := do
  let turn ← readTurn turn
  let squares ← readBoard boardPart
  let hands ← readHands handPart
  return (squares, turn, hands)

def parseSfen (sfen : Text) : Except BoardError (Board × Turn × Hands) :=
  if isSfen sfen then
    match sfen.splitOn ' ' with
    | boardPart :: turn :: handPart :: _ => readParts boardPart turn handPart
    | _ => .error "invalid sfen"
  else .error "invalid sfen"

/-- The count of the empty squares before a piece or the end of the row. -/
def emptyText (empty : ℕ) : Text := if empty = 0 then [] else Wire.digitsOf empty

def rowText : ℕ → List (Option Piece) → Text
  | empty, [] => emptyText empty
  | empty, none :: cells => rowText (empty + 1) cells
  | empty, some p :: cells => emptyText empty ++ p.text ++ rowText 0 cells

/-- The squares of a row, from file 9 on. -/
def Board.cells (squares : Board) (row : Fin 9) : List (Option Piece) :=
  (List.finRange 9).map fun slot => squares ⟨row, slot⟩

def boardText (squares : Board) : Text :=
  ['/'].intercalate ((List.finRange 9).map fun row => rowText 0 (squares.cells row))

/-- One role of a hand. -/
def heldText (count : ℕ) (c : Char) : Text :=
  if count = 0 then [] else (if 1 < count then Wire.digitsOf count else []) ++ [c]

/-- What a side holds; a king in hand is not written. -/
def sideText (hands : Hands) (side : Side) : Text := handRoles.flatMap fun role => heldText (hands side role) (role.code side)

def handText (hands : Hands) : Text :=
  match sideText hands .sente ++ sideText hands .gote with
  | [] => ['-']
  | text => text

def toSfen (squares : Board) (hands : Hands) (turn : Turn) (moveNumber : ℕ) : Text :=
  [' '].intercalate [boardText squares, [turn.letter], handText hands, Wire.digitsOf (max 1 moveNumber)]

/-! ## Moves -/

/-- A USI move taken apart. -/
inductive Usi
  | move (origin target : Square) (promote : Bool)
  | drop (role : Role) (target : Square)

def readSquare (file rank : Char) : Option Square :=
  if '1' ≤ file ∧ file ≤ '9' ∧ 'a' ≤ rank ∧ rank ≤ 'i' then
    some ⟨Fin.ofNat 9 (rank.toNat - 97), Fin.ofNat 9 (57 - file.toNat)⟩
  else none

/-- The roles that `USI` drops. -/
def dropRole (c : Char) : Option Role := [Role.P, .L, .N, .S, .G, .B, .R].find? fun r => r.letter = c

/-- What `USI` matches. -/
def readUsi : Text → Option Usi
  | [role, '*', file, rank] => do return .drop (← dropRole role) (← readSquare file rank)
  | [file, rank, file', rank'] => do return .move (← readSquare file rank) (← readSquare file' rank') false
  | [file, rank, file', rank', '+'] => do return .move (← readSquare file rank) (← readSquare file' rank') true
  | _ => none

def Usi.target : Usi → Square
  | .move _ target _ => target
  | .drop _ target => target

structure Facts where
  piece : Piece
  captured : Option Piece
  promote : Bool
  drop : Bool

/-- `PROMOTED`. -/
def Role.promotes : Role → Bool
  | .P | .L | .N | .S | .B | .R => true
  | .G | .K => false

def Hands.add (hands : Hands) (side : Side) (role : Role) : Hands :=
  Function.update hands side (Function.update (hands side) role (hands side role + 1))

def Hands.take (hands : Hands) (side : Side) (role : Role) : Hands :=
  Function.update hands side (Function.update (hands side) role (hands side role - 1))

def Hands.capture (hands : Hands) (side : Side) : Option Piece → Hands
  | none => hands
  | some p => hands.add side p.role

/-- `apply_move` on a move that `USI` matched. -/
def play (p : Position) (side : Side) : Usi → Except BoardError (Position × Facts)
  | .drop role target =>
    if p.squares target ≠ none then .error "drop onto an occupied square"
    else if p.hands side role = 0 then .error "drop without the piece in hand"
    else
      let piece : Piece := ⟨false, role, side⟩
      .ok (⟨Function.update p.squares target (some piece), p.hands.take side role⟩, ⟨piece, none, false, true⟩)
  | .move origin target promote =>
    match p.squares origin with
    | none => .error "no piece on the from square"
    | some piece =>
      if promote ∧ (piece.promoted ∨ ¬ piece.role.promotes) then .error "invalid promotion"
      else
        let piece : Piece := if promote then { piece with promoted := true } else piece
        -- the captured piece is read before the from square is cleared
        let captured := p.squares target
        .ok (⟨Function.update (Function.update p.squares origin none) target (some piece), p.hands.capture side captured⟩,
          ⟨piece, captured, promote, false⟩)

def applyMove (p : Position) (usi : Text) (side : Side) : Except BoardError (Position × Facts) :=
  match readUsi usi with
  | none => .error "invalid usi"
  | some move => play p side move

/-! ## The start -/

def standardStart : Text := "lnsgkgsnl/1r5b1/ppppppppp/9/9/9/PPPPPPPPP/1B5R1/LNSGKGSNL b - 1".toList

end Docich.Shogi
