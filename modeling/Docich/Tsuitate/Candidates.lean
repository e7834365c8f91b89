import Mathlib.Data.List.Sort
import Mathlib.Data.Prod.Lex

/-!
# The move generator

What a player of tsuitate shogi sees, and the moves that the brain generates from it. A square is the pair of its file
and its rank; a move is its USI text taken apart.
-/

namespace Docich.Tsuitate

/-! ## Observations -/

inductive Color
  | b
  | w
  deriving DecidableEq

inductive Role
  | P | L | N | S | G | B | R | K
  | plusP | plusL | plusN | plusS | plusB | plusR
  deriving DecidableEq

structure Square where
  file : ℤ
  rank : ℤ
  deriving DecidableEq

def Square.InBounds (s : Square) : Prop := 1 ≤ s.file ∧ s.file ≤ 9 ∧ 1 ≤ s.rank ∧ s.rank ≤ 9

instance (s : Square) : Decidable s.InBounds := inferInstanceAs (Decidable (_ ∧ _))

structure Piece where
  square : Square
  role : Role
  deriving DecidableEq

structure KnownEnemy where
  square : Square
  age : ℕ

def handRoles : List Role := [.P, .L, .N, .S, .G, .B, .R]

def handLimit : Role → ℕ
  | .P => 18
  | .L | .N | .S | .G => 4
  | .B | .R => 2
  | _ => 0

def knownEnemyLimit : ℕ := 40

/-- An observation as `normalizeObservation` returns it. -/
structure Observation where
  color : Color
  turn : Color
  moveNumber : ℕ
  pieces : List Piece
  hand : Role → ℕ
  inCheck : Option Bool
  opponentInCheck : Option Bool
  attemptBudget : Option ℕ
  knownEnemies : List KnownEnemy
  moveNumber_pos : 1 ≤ moveNumber
  pieces_length : pieces.length ≤ 81
  pieces_inBounds : ∀ p ∈ pieces, p.square.InBounds
  pieces_nodup : (pieces.map Piece.square).Nodup
  hand_le : ∀ role ∈ handRoles, hand role ≤ handLimit role
  attemptBudget_le : ∀ n, attemptBudget = some n → n ≤ 1001
  knownEnemies_length : knownEnemies.length ≤ knownEnemyLimit
  knownEnemies_inBounds : ∀ e ∈ knownEnemies, e.square.InBounds
  knownEnemies_nodup : (knownEnemies.map KnownEnemy.square).Nodup
  knownEnemies_age : ∀ e ∈ knownEnemies, e.age ≤ 999

/-! ## Moves -/

inductive Usi
  | move (origin destination : Square) (promote : Bool)
  | drop (role : Role) (destination : Square)
  deriving DecidableEq

def Usi.destination : Usi → Square
  | .move _ destination _ => destination
  | .drop _ destination => destination

def Usi.isDrop : Usi → Bool
  | .move _ _ _ => false
  | .drop _ _ => true

/-- The move without its promotion. -/
def Usi.path : Usi → Usi
  | .move origin destination _ => .move origin destination false
  | .drop role destination => .drop role destination

structure Candidate where
  usi : Usi
  role : Role
  deriving DecidableEq

/-! ## Movement -/

def forward : Color → ℤ
  | .b => -1
  | .w => 1

def mustPromote (color : Color) (role : Role) (rank : ℤ) : Bool :=
  let finalRank := match color with
    | .b => rank = 1
    | .w => rank = 9
  (role = .P || role = .L) && finalRank ||
    role = .N && match color with
      | .b => rank ≤ 2
      | .w => 8 ≤ rank

def promotionZone (color : Color) (rank : ℤ) : Bool :=
  match color with
  | .b => rank ≤ 3
  | .w => 7 ≤ rank

def gold : List (ℤ × ℤ) := [(0, 1), (-1, 1), (1, 1), (-1, 0), (1, 0), (0, -1)]

def diagonals : List (ℤ × ℤ) := [(-1, -1), (-1, 1), (1, -1), (1, 1)]

def orthogonals : List (ℤ × ℤ) := [(0, -1), (0, 1), (-1, 0), (1, 0)]

structure Movement where
  steps : List (ℤ × ℤ)
  rays : List (ℤ × ℤ)

def rayMovement (legacy : Bool) (rays steps : List (ℤ × ℤ)) : Movement :=
  if legacy then ⟨rays ++ steps, []⟩ else ⟨steps, rays⟩

def movement (role : Role) (forward : ℤ) (legacy : Bool) : Movement :=
  match role with
  | .G | .plusP | .plusL | .plusN | .plusS => ⟨gold.map fun d => (d.1, d.2 * forward), []⟩
  | .P => ⟨[(0, forward)], []⟩
  | .N => ⟨[(-1, 2 * forward), (1, 2 * forward)], []⟩
  | .S => ⟨[(0, forward), (-1, forward), (1, forward), (-1, -forward), (1, -forward)], []⟩
  | .K => ⟨if legacy then [] else orthogonals ++ diagonals, []⟩
  | .L => rayMovement legacy [(0, forward)] []
  | .B => rayMovement legacy diagonals []
  | .plusB => rayMovement legacy diagonals orthogonals
  | .R => rayMovement legacy orthogonals []
  | .plusR => rayMovement legacy orthogonals diagonals

/-- The roles with a promoted side. -/
def promotable : Role → Bool
  | .P | .L | .N | .S | .B | .R => true
  | _ => false

/-! ## Candidates -/

def Square.shift (s : Square) (dx dy : ℤ) : Square := ⟨s.file + dx, s.rank + dy⟩

theorem Square.shift_file (s : Square) (dx dy : ℤ) : (s.shift dx dy).file - s.file = dx := by
  simp only [Square.shift]
  omega

theorem Square.shift_rank (s : Square) (dx dy : ℤ) : (s.shift dx dy).rank - s.rank = dy := by
  simp only [Square.shift]
  omega

theorem Square.shift_sub (s t : Square) : s.shift (t.file - s.file) (t.rank - s.rank) = t := by
  cases t
  simp only [Square.shift, Square.mk.injEq]
  omega

namespace Observation

variable (o : Observation)

def Occupied (s : Square) : Prop := s ∈ o.pieces.map Piece.square

def Known (s : Square) : Prop := s ∈ o.knownEnemies.map KnownEnemy.square

instance (s : Square) : Decidable (o.Occupied s) := inferInstanceAs (Decidable (_ ∈ _))

instance (s : Square) : Decidable (o.Known s) := inferInstanceAs (Decidable (_ ∈ _))

/-- The pieces in the order of the generator: the middle files first. -/
def sortedPieces : List Piece :=
  o.pieces.insertionSort fun a b =>
    toLex ((a.square.file - 5).natAbs, toLex (a.square.rank, -a.square.file)) ≤
      toLex ((b.square.file - 5).natAbs, toLex (b.square.rank, -b.square.file))

/-- The move of a piece to a square, without and with promotion where both are allowed. -/
def append (legacy : Bool) (piece : Piece) (destination : Square) : List Candidate :=
  let mandatory := mustPromote o.color piece.role destination.rank
  (if mandatory then [] else [⟨.move piece.square destination false, piece.role⟩]) ++
    if mandatory || (!legacy && promotable piece.role &&
        (promotionZone o.color piece.square.rank || promotionZone o.color destination.rank)) then
      [⟨.move piece.square destination true, piece.role⟩]
    else []

def stepSquares (source : Square) (steps : List (ℤ × ℤ)) : List Square :=
  (steps.map fun d => source.shift d.1 d.2).filter fun s => s.InBounds ∧ ¬o.Occupied s

/-- The squares of a ray, up to an own piece and including a known enemy. -/
def raySquares (source : Square) (d : ℤ × ℤ) : ℕ → ℕ → List Square
  | 0, _ => []
  | n + 1, step =>
    let s := source.shift (d.1 * step) (d.2 * step)
    if ¬s.InBounds ∨ o.Occupied s then []
    else if o.Known s then [s]
    else s :: raySquares source d n (step + 1)

def destinations (legacy : Bool) (piece : Piece) : List Square :=
  let m := movement piece.role (forward o.color) legacy
  o.stepSquares piece.square m.steps ++ m.rays.flatMap fun d => o.raySquares piece.square d 8 1

def boardSquares : List Square :=
  (List.range 9).flatMap fun (y : ℕ) => (List.range 9).map fun (x : ℕ) => ⟨9 - (x : ℤ), (y : ℤ) + 1⟩

/-- The squares on which a piece of the hand may be dropped. -/
def dropSquares (role : Role) : List Square :=
  boardSquares.filter fun s => ¬(o.Occupied s ∨ o.Known s ∨ mustPromote o.color role s.rank ∨
    role = .P ∧ ∃ p ∈ o.pieces, p.role = .P ∧ p.square.file = s.file)

def drops : List Candidate :=
  handRoles.flatMap fun role =>
    if o.hand role = 0 then [] else (o.dropSquares role).map fun s => ⟨.drop role s, role⟩

def candidatesFor (legacy : Bool) : List Candidate :=
  (o.sortedPieces.flatMap fun piece => (o.destinations legacy piece).flatMap fun s => o.append legacy piece s) ++
    if legacy then [] else o.drops

end Observation

end Docich.Tsuitate
