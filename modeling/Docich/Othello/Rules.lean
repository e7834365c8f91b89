import Mathlib.Data.Fintype.Pi
import Mathlib.Data.Fintype.Prod
import Mathlib.Tactic.Ring

/-!
# Othello

- `Legal`, `Turned`, `Next`: the rules, as conditions on the lines of a board;
- `flipsFor`, `legalMoves`, `applyMove`, `aiChooseMove`: the rules as the worker computes them;
- `applyMove_eq_ok`: the two agree;
- `discs_after`: a move adds one disc.
-/

namespace Docich.Othello

open List Option

/-! ## Boards -/

inductive Cell
  | empty
  | black
  | white
  deriving DecidableEq

inductive Player
  | black
  | white
  deriving DecidableEq

def Player.cell : Player → Cell
  | .black => .black
  | .white => .white

def opponent : Player → Player
  | .black => .white
  | .white => .black

@[simp] theorem opponent_ne (p : Player) : opponent p ≠ p := by cases p <;> decide

@[simp] theorem cell_ne_empty (p : Player) : p.cell ≠ .empty := by cases p <;> decide

theorem cell_inj {p q : Player} (h : p.cell = q.cell) : p = q := by
  cases p <;> cases q <;> first | rfl | cases h

abbrev Square := Fin 8 × Fin 8

abbrev Board := Square → Cell

def squares : List Square := List.finRange 8 ×ˢ List.finRange 8

theorem nodup_squares : squares.Nodup := (nodup_finRange 8).product (nodup_finRange 8)

@[simp] theorem mem_squares (s : Square) : s ∈ squares := mem_product.mpr ⟨mem_finRange _, mem_finRange _⟩

/-- The square in this row and column, when both are on the board. -/
def square? (r c : ℤ) : Option Square :=
  if h : (0 ≤ r ∧ r < 8) ∧ 0 ≤ c ∧ c < 8 then some (⟨r.toNat, by omega⟩, ⟨c.toNat, by omega⟩) else none

theorem square?_eq_some {r c : ℤ} {s : Square} : square? r c = some s ↔ r = s.1 ∧ c = s.2 := by
  unfold square?
  obtain ⟨⟨i, hi⟩, j, hj⟩ := s
  split
  · next h =>
    simp only [some.injEq, Prod.mk.injEq, Fin.mk.injEq]
    omega
  · next h =>
    simp only [reduceCtorEq, false_iff]
    omega

@[simp] theorem square?_self (s : Square) : square? s.1 s.2 = some s := square?_eq_some.mpr ⟨rfl, rfl⟩

def newBoard : Board := fun s =>
  if s = (3, 3) ∨ s = (4, 4) then .white else if s = (3, 4) ∨ s = (4, 3) then .black else .empty

/-! ## The rules -/

def directions : List (ℤ × ℤ) := [(-1, -1), (-1, 0), (-1, 1), (0, -1), (0, 1), (1, -1), (1, 0), (1, 1)]

/-- The square `k` steps from `s` in the direction `d`. -/
def along (s : Square) (d : ℤ × ℤ) (k : ℕ) : Option Square := square? (s.1 + k * d.1) (s.2 + k * d.2)

/-- What stands `k` steps from `s` in the direction `d`. -/
def Stands (b : Board) (s : Square) (d : ℤ × ℤ) (k : ℕ) (c : Cell) : Prop := ∃ t, along s d k = some t ∧ b t = c

/-- From `s` in the direction `d` stand `n` discs of the other player, then one of `p`. -/
structure Bracket (b : Board) (p : Player) (s : Square) (d : ℤ × ℤ) (n : ℕ) : Prop where
  pos : 0 < n
  between : ∀ k, 1 ≤ k → k ≤ n → Stands b s d k (opponent p).cell
  closed : Stands b s d (n + 1) p.cell

/-- The disc on `t` turns when `p` plays on `s`. -/
def Turned (b : Board) (p : Player) (s t : Square) : Prop :=
  ∃ d ∈ directions, ∃ n, Bracket b p s d n ∧ ∃ k, 1 ≤ k ∧ k ≤ n ∧ along s d k = some t

/-- `p` may play on `s`: the square is empty and some disc turns. -/
def Legal (b : Board) (p : Player) (s : Square) : Prop := b s = .empty ∧ ∃ t, Turned b p s t

def CanMove (b : Board) (p : Player) : Prop := ∃ s, Legal b p s

open Classical in
/-- The board after `p` played on `s`. -/
noncomputable def after (b : Board) (p : Player) (s : Square) : Board := fun t =>
  if t = s ∨ Turned b p s t then p.cell else b t

/-- Whose turn it is after `p` moved: the other player's, if they can reply; a player moves twice only if not. -/
def Next (b : Board) (p : Player) : Option Player → Prop
  | some q => CanMove b q ∧ (q = p → ¬ CanMove b (opponent p))
  | none => ∀ q, ¬ CanMove b q

structure Position where
  board : Board
  turn : Option Player

/-- One move of a game. -/
inductive Play (p : Player) : Position → Position → Prop
  | move {b : Board} (s : Square) {turn : Option Player} (hs : Legal b p s) (hn : Next (after b p s) p turn) :
    Play p ⟨b, some p⟩ ⟨after b p s, turn⟩

variable {b : Board} {d : ℤ × ℤ}

theorem Turned.cell {p : Player} {s t : Square} (h : Turned b p s t) : b t = (opponent p).cell := by
  obtain ⟨d, -, n, hb, k, h1, hn, hk⟩ := h
  obtain ⟨t', ht', hc⟩ := hb.between k h1 hn
  rw [hk] at ht'
  cases ht'
  exact hc

/-! ## The rules as they are computed -/

/-- The run of `opp` discs from a square on, at most `n` of them, and where it ends. -/
def walk (b : Board) (opp : Cell) (d : ℤ × ℤ) : ℕ → ℤ → ℤ → List Square × ℤ × ℤ
  | 0, r, c => ([], r, c)
  | n + 1, r, c =>
    match square? r c with
    | none => ([], r, c)
    | some s =>
      if b s = opp then
        let (line, stop) := walk b opp d n (r + d.1) (c + d.2)
        (s :: line, stop)
      else ([], r, c)

/-- What turns in one direction. -/
def flipsAlong (b : Board) (p : Player) (s : Square) (d : ℤ × ℤ) : List Square :=
  match walk b (opponent p).cell d 8 (s.1 + d.1) (s.2 + d.2) with
  | (line, r, c) =>
    match square? r c with
    | some t => if line ≠ [] ∧ b t = p.cell then line else []
    | none => []

/-- What turns when `p` plays on `s`. -/
def flips (b : Board) (p : Player) (s : Square) : List Square :=
  if b s ≠ .empty then [] else directions.flatMap (flipsAlong b p s)

/-- The texts of `OthelloRulesError`. -/
abbrev RulesError := String

def flipsFor (b : Board) (p : Player) (row col : ℤ) : Except RulesError (List Square) :=
  match square? row col with
  | none => .error "invalid move"
  | some s => .ok (flips b p s)

def legalMoves (b : Board) (p : Player) : List Square := squares.filter fun s => b s = .empty ∧ flips b p s ≠ []

def discs (b : Board) : ℕ := squares.countP fun s => b s ≠ .empty

def validateBoard (b : Board) : Except RulesError Board :=
  if discs b < 4 then .error "board lost its starting discs" else .ok b

def put (b : Board) (p : Player) (on : List Square) : Board := on.foldl (fun b s => Function.update b s p.cell) b

def applyMove (b : Board) (p : Player) (row col : ℤ) : Except RulesError Board :=
  match square? row col with
  | none => .error "invalid move"
  | some s => if flips b p s = [] then .error "illegal move" else validateBoard (put b p (s :: flips b p s))

structure Score where
  black : ℕ
  white : ℕ

def score (b : Board) : Score :=
  { black := squares.countP fun s => b s = .black, white := squares.countP fun s => b s = .white }

def winnerOf (b : Board) : Option Player :=
  if (score b).black > (score b).white then some .black
  else if (score b).white > (score b).black then some .white
  else none

def positionalWeights : List (List ℤ) :=
  [[120, -20, 20, 5, 5, 20, -20, 120],
   [-20, -40, -5, -5, -5, -5, -40, -20],
   [20, -5, 15, 3, 3, 15, -5, 20],
   [5, -5, 3, 3, 3, 3, -5, 5],
   [5, -5, 3, 3, 3, 3, -5, 5],
   [20, -5, 15, 3, 3, 15, -5, 20],
   [-20, -40, -5, -5, -5, -5, -40, -20],
   [120, -20, 20, 5, 5, 20, -20, 120]]

def weight (s : Square) : ℤ := (positionalWeights.getD s.1 []).getD s.2 0

/-- The first of the heaviest candidates. -/
def heaviest : List Square → Option Square → Option Square
  | [], best => best
  | s :: rest, none => heaviest rest (some s)
  | s :: rest, some t => heaviest rest (if weight s > weight t then some s else some t)

/-- Row by row. -/
def Before (s t : Square) : Prop := s.1 < t.1 ∨ s.1 = t.1 ∧ s.2 ≤ t.2

instance : DecidableRel Before := fun _ _ => inferInstanceAs (Decidable (_ ∨ _))

def aiChooseMove (b : Board) (p : Player) (moves : Option (List Square)) : Except RulesError Square := do
  let b ← validateBoard b
  match heaviest ((moves.getD (legalMoves b p)).insertionSort Before) none with
  | none => .error "no legal move"
  | some s => .ok s

/-- First seat with a legal reply: the mover's opponent, then the mover. -/
def nextSeat (b : Board) (mover : Player) : Option Player :=
  if legalMoves b (opponent mover) ≠ [] then some (opponent mover)
  else if legalMoves b mover ≠ [] then some mover
  else none

/-! ## What is computed is Othello -/

variable {b : Board} {p : Player} {s t : Square}

theorem walk_spec (b : Board) (opp : Cell) (d : ℤ × ℤ) (n : ℕ) (r c : ℤ) :
    ∃ m ≤ n, (walk b opp d n r c).2 = (r + m * d.1, c + m * d.2) ∧
      (∀ k < m, ∃ t, square? (r + k * d.1) (c + k * d.2) = some t ∧ b t = opp) ∧
      (m < n → ∀ t, square? (r + m * d.1) (c + m * d.2) = some t → b t ≠ opp) ∧
      ∀ t, t ∈ (walk b opp d n r c).1 ↔ ∃ k < m, square? (r + k * d.1) (c + k * d.2) = some t := by
  induction n generalizing r c with
  | zero => exact ⟨0, le_rfl, by simp [walk], by simp, by simp, by simp [walk]⟩
  | succ n ih =>
    simp only [walk]
    split
    · next hs => exact ⟨0, Nat.zero_le _, by simp, by simp, by simp [hs], by simp⟩
    · next s hs =>
      split
      · next hb =>
        obtain ⟨m, hm, hstop, hrun, hend, hmem⟩ := ih (r + d.1) (c + d.2)
        have hshift : ∀ (x y : ℤ) (k : ℕ), x + y + k * y = x + ((k + 1 : ℕ) : ℤ) * y := by
          intro x y k
          push_cast
          ring
        simp only [hshift] at hstop hrun hend hmem
        refine ⟨m + 1, by omega, hstop, ?_, fun h => hend (by omega), ?_⟩
        · intro k hk
          cases k with
          | zero => exact ⟨s, by simpa using hs, hb⟩
          | succ k => exact hrun k (by omega)
        · intro t
          rw [mem_cons, hmem]
          constructor
          · rintro (rfl | ⟨k, hk, ht⟩)
            · exact ⟨0, by omega, by simpa using hs⟩
            · exact ⟨k + 1, by omega, ht⟩
          · rintro ⟨k, hk, ht⟩
            cases k with
            | zero =>
              have hst : some s = some t := by rw [← hs, ← ht]; simp
              exact .inl (some.inj hst).symm
            | succ k => exact .inr ⟨k, by omega, ht⟩
      · next hb =>
        refine ⟨0, Nat.zero_le _, by simp, by simp, fun _ t ht => ?_, by simp⟩
        have hst : some s = some t := by rw [← hs, ← ht]; simp
        rw [← some.inj hst]
        exact hb

theorem along_start (s : Square) (d : ℤ × ℤ) (k : ℕ) :
    square? (s.1 + d.1 + k * d.1) (s.2 + d.2 + k * d.2) = along s d (k + 1) := by
  congr 1 <;> push_cast <;> ring

/-- No line has eight squares besides the one it starts from. -/
theorem along_eight (hd : d ∈ directions) (s : Square) : along s d 8 = none := by
  cases h : along s d 8 with
  | none => rfl
  | some t =>
    obtain ⟨h1, h2⟩ := square?_eq_some.mp h
    simp only [directions, mem_cons, not_mem_nil, or_false] at hd
    rcases hd with rfl | rfl | rfl | rfl | rfl | rfl | rfl | rfl <;> simp at h1 h2 <;> omega

/-- The loop of a direction ends because its condition fails, not because it ran out. -/
theorem walk_flips (b : Board) (p : Player) (s : Square) (hd : d ∈ directions) :
    ∃ m : ℕ, (walk b (opponent p).cell d 8 (s.1 + d.1) (s.2 + d.2)).2 = (s.1 + d.1 + m * d.1, s.2 + d.2 + m * d.2) ∧
      (∀ k : ℕ, 1 ≤ k → k ≤ m → Stands b s d k (opponent p).cell) ∧ ¬ Stands b s d (m + 1) (opponent p).cell ∧
      ∀ t, t ∈ (walk b (opponent p).cell d 8 (s.1 + d.1) (s.2 + d.2)).1 ↔ ∃ k : ℕ, 1 ≤ k ∧ k ≤ m ∧ along s d k = some t := by
  obtain ⟨m, hm, hstop, hrun, hend, hmem⟩ := walk_spec b (opponent p).cell d 8 (s.1 + d.1) (s.2 + d.2)
  simp only [along_start] at hrun hend hmem
  have hlt : m < 8 := by
    by_contra hge
    obtain ⟨t, ht, -⟩ := hrun 7 (by omega)
    rw [along_eight hd] at ht
    cases ht
  refine ⟨m, hstop, fun k h1 hk => ?_, fun ⟨t, ht, hc⟩ => hend hlt t ht hc, fun t => ?_⟩
  · obtain ⟨t, ht, hc⟩ := hrun (k - 1) (by omega)
    rw [Nat.sub_add_cancel h1] at ht
    exact ⟨t, ht, hc⟩
  · rw [hmem]
    constructor
    · rintro ⟨k, hk, ht⟩
      exact ⟨k + 1, by omega, by omega, ht⟩
    · rintro ⟨k, h1, hk, ht⟩
      exact ⟨k - 1, by omega, by rwa [Nat.sub_add_cancel h1]⟩

theorem Stands.unique {k : ℕ} {x y : Cell} (hx : Stands b s d k x) (hy : Stands b s d k y) : x = y := by
  obtain ⟨t, ht, rfl⟩ := hx
  obtain ⟨t', ht', rfl⟩ := hy
  rw [ht] at ht'
  rw [some.inj ht']

/-- A bracket is as long as the run of discs of the other player. -/
theorem Bracket.length_eq {n m : ℕ} (h : Bracket b p s d n)
    (hrun : ∀ k, 1 ≤ k → k ≤ m → Stands b s d k (opponent p).cell) (hend : ¬ Stands b s d (m + 1) (opponent p).cell) :
    n = m := by
  rcases Nat.lt_trichotomy n m with hlt | heq | hgt
  · exact absurd (cell_inj ((hrun (n + 1) (by omega) hlt).unique h.closed)) (opponent_ne p)
  · exact heq
  · exact absurd (h.between (m + 1) (by omega) hgt) hend

theorem mem_flipsAlong (hd : d ∈ directions) :
    t ∈ flipsAlong b p s d ↔ ∃ n, Bracket b p s d n ∧ ∃ k, 1 ≤ k ∧ k ≤ n ∧ along s d k = some t := by
  obtain ⟨m, hstop, hrun, hend, hmem⟩ := walk_flips b p s hd
  unfold flipsAlong
  split
  next line r c hw =>
    rw [hw] at hstop hmem
    cases hstop
    rw [along_start]
    constructor
    · intro ht
      split at ht
      · next t' ht' =>
        split at ht
        · next hc =>
          obtain ⟨k, h1, hk, hkt⟩ := (hmem t).mp ht
          exact ⟨m, ⟨by omega, hrun, t', ht', hc.2⟩, k, h1, hk, hkt⟩
        · cases ht
      · cases ht
    · rintro ⟨n, hb, k, h1, hk, hkt⟩
      obtain rfl := hb.length_eq hrun hend
      obtain ⟨t', ht', hc⟩ := hb.closed
      have hline : t ∈ line := (hmem t).mpr ⟨k, h1, hk, hkt⟩
      simp only [ht', hc, ne_eq, ne_nil_of_mem hline, not_false_eq_true, and_self, if_true]
      exact hline

theorem mem_flips (hs : b s = .empty) : t ∈ flips b p s ↔ Turned b p s t := by
  simp only [flips, hs, ne_eq, not_true_eq_false, if_false, mem_flatMap]
  exact exists_congr fun d => and_congr_right fun hd => mem_flipsAlong hd

theorem flips_ne_nil : flips b p s ≠ [] ↔ Legal b p s := by
  by_cases hs : b s = .empty
  · constructor
    · intro hne
      obtain ⟨t, ht⟩ := exists_mem_of_ne_nil _ hne
      exact ⟨hs, t, (mem_flips hs).mp ht⟩
    · rintro ⟨-, t, ht⟩
      exact ne_nil_of_mem ((mem_flips hs).mpr ht)
  · simp [flips, hs, Legal]

theorem mem_legalMoves : s ∈ legalMoves b p ↔ Legal b p s := by
  simp only [legalMoves, mem_filter, mem_squares, true_and, decide_eq_true_eq, flips_ne_nil]
  exact ⟨And.right, fun h => ⟨h.1, h⟩⟩

theorem legalMoves_ne_nil : legalMoves b p ≠ [] ↔ CanMove b p := by
  constructor
  · intro hne
    obtain ⟨s, hs⟩ := exists_mem_of_ne_nil _ hne
    exact ⟨s, mem_legalMoves.mp hs⟩
  · rintro ⟨s, hs⟩
    exact ne_nil_of_mem (mem_legalMoves.mpr hs)

theorem put_apply (b : Board) (p : Player) (on : List Square) (t : Square) :
    put b p on t = if t ∈ on then p.cell else b t := by
  unfold put
  induction on generalizing b with
  | nil => simp
  | cons s rest ih =>
    rw [foldl_cons, ih]
    by_cases hrest : t ∈ rest
    · simp [hrest]
    · by_cases hs : t = s
      · simp [hs]
      · simp [hrest, hs]

/-- The board that is computed for a legal move. -/
theorem put_eq_after (hs : Legal b p s) : put b p (s :: flips b p s) = after b p s := by
  funext t
  have hmem : t ∈ s :: flips b p s ↔ t = s ∨ Turned b p s t := by rw [mem_cons, mem_flips hs.1]
  unfold after
  rw [put_apply]
  by_cases ht : t = s ∨ Turned b p s t
  · rw [if_pos ht, if_pos (hmem.mpr ht)]
  · rw [if_neg ht, if_neg (mt hmem.mp ht)]

theorem nextSeat_spec (b : Board) (p : Player) : Next b p (nextSeat b p) := by
  unfold nextSeat
  split
  · next h => exact ⟨legalMoves_ne_nil.mp h, fun he => absurd he (opponent_ne p)⟩
  · next h =>
    rw [legalMoves_ne_nil] at h
    split
    · next h' => exact ⟨legalMoves_ne_nil.mp h', fun _ => h⟩
    · next h' =>
      rw [legalMoves_ne_nil] at h'
      intro q
      rcases eq_or_ne q p with rfl | hq
      · exact h'
      · have : q = opponent p := by cases p <;> cases q <;> first | rfl | exact absurd rfl hq
        exact this ▸ h

/-! ## Discs -/

theorem countP_succ {α : Type} {l : List α} (hl : l.Nodup) {a : α} (ha : a ∈ l) {f g : α → Bool} (hf : f a = false)
    (hg : g a = true) (hfg : ∀ x, x ≠ a → f x = g x) : l.countP g = l.countP f + 1 := by
  induction l with
  | nil => cases ha
  | cons x l ih =>
    obtain ⟨hx, hl⟩ := nodup_cons.mp hl
    rcases mem_cons.mp ha with rfl | ha
    · have hrest : l.countP f = l.countP g := countP_congr fun y hy => by rw [hfg y (fun he => hx (he ▸ hy))]
      simp [hf, hg, hrest]
    · have hxa : x ≠ a := fun he => hx (he ▸ ha)
      simp only [countP_cons, ih hl ha, hfg x hxa]
      omega

/-- A move adds one disc. -/
theorem discs_after (hs : Legal b p s) : discs (after b p s) = discs b + 1 := by
  refine countP_succ nodup_squares (mem_squares s) (by simp [hs.1]) (by simp [after]) fun t ht => ?_
  by_cases hturn : Turned b p s t
  · simp [after, hturn, hturn.cell]
  · simp [after, ht, hturn]

theorem discs_le (b : Board) : discs b ≤ 64 := countP_le_length

theorem validateBoard_eq (h : 4 ≤ discs b) : validateBoard b = .ok b := if_neg (by omega)

/-- A legal move is applied as the rules say. -/
theorem applyMove_of_legal (h4 : 4 ≤ discs b) (hs : Legal b p s) : applyMove b p s.1 s.2 = .ok (after b p s) := by
  unfold applyMove
  rw [square?_self]
  simp only [flips_ne_nil.mpr hs, if_false, put_eq_after hs]
  exact validateBoard_eq (by rw [discs_after hs]; omega)

/-- What is applied is a legal move. -/
theorem applyMove_eq_ok {row col : ℤ} {b' : Board} (h : applyMove b p row col = .ok b') :
    ∃ s, row = s.1 ∧ col = s.2 ∧ Legal b p s ∧ b' = after b p s := by
  unfold applyMove at h
  split at h
  · cases h
  · next s hs =>
    obtain ⟨hr, hc⟩ := square?_eq_some.mp hs
    split at h
    · cases h
    · next hf =>
      have hl := flips_ne_nil.mp hf
      unfold validateBoard at h
      split at h
      · cases h
      · cases h
        exact ⟨s, hr, hc, hl, put_eq_after hl⟩

/-! ## The choice of the worker -/

theorem heaviest_some (l : List Square) (t : Square) : ∃ s, heaviest l (some t) = some s ∧ (s ∈ l ∨ s = t) := by
  induction l generalizing t with
  | nil => exact ⟨t, rfl, .inr rfl⟩
  | cons x l ih =>
    rw [heaviest]
    split
    · obtain ⟨s, hs, hm⟩ := ih x
      exact ⟨s, hs, .inl (mem_cons.mpr hm.symm)⟩
    · obtain ⟨s, hs, hm⟩ := ih t
      exact ⟨s, hs, hm.imp_left (mem_cons_of_mem _)⟩

theorem heaviest_mem {l : List Square} (hl : l ≠ []) : ∃ s ∈ l, heaviest l none = some s := by
  cases l with
  | nil => exact absurd rfl hl
  | cons x l =>
    obtain ⟨s, hs, hm⟩ := heaviest_some l x
    exact ⟨s, mem_cons.mpr hm.symm, hs⟩

/-- A player who can move is answered with a legal move. -/
theorem aiChooseMove_legal (h4 : 4 ≤ discs b) (hp : CanMove b p) :
    ∃ s, aiChooseMove b p (some (legalMoves b p)) = .ok s ∧ Legal b p s := by
  have hne : (legalMoves b p).insertionSort Before ≠ [] := by
    rw [ne_eq, ← length_eq_zero_iff, length_insertionSort, length_eq_zero_iff]
    exact legalMoves_ne_nil.mpr hp
  obtain ⟨s, hs, hh⟩ := heaviest_mem hne
  refine ⟨s, ?_, mem_legalMoves.mp ((mem_insertionSort _).mp hs)⟩
  simp only [aiChooseMove, validateBoard_eq h4, getD_some, hh, bind, Except.bind]

end Docich.Othello
