import Docich.Tsuitate.Candidates
import Mathlib.Algebra.Order.Ring.Int

/-!
# Legality on a complete board

The rules of shogi on a board that shows both sides, and the candidates against them. A board agrees with an observation
when the own pieces are the observed ones and every known enemy is there.
-/

namespace Docich.Tsuitate

open List

/-! ## The rules -/

def Color.other : Color → Color
  | .b => .w
  | .w => .b

abbrev Board := Square → Option (Color × Role)

/-- The farthest `n` ranks. -/
def Within (color : Color) (n rank : ℤ) : Prop :=
  match color with
  | .b => rank ≤ n
  | .w => 10 - n ≤ rank

/-- A piece on the rank could never move again. -/
def DeadEnd (color : Color) (role : Role) (rank : ℤ) : Prop :=
  (role = .P ∨ role = .L) ∧ Within color 1 rank ∨ role = .N ∧ Within color 2 rank

def Adjacent (dx dy : ℤ) : Prop := dx.natAbs ≤ 1 ∧ dy.natAbs ≤ 1 ∧ (dx ≠ 0 ∨ dy ≠ 0)

def Diagonal (dx dy : ℤ) : Prop := dx.natAbs = dy.natAbs ∧ dx ≠ 0

def Straight (dx dy : ℤ) : Prop := dx = 0 ∧ dy ≠ 0 ∨ dx ≠ 0 ∧ dy = 0

/-- How a role moves on an empty board; `dy` counts ranks forward. -/
def Reaches : Role → ℤ → ℤ → Prop
  | .P, dx, dy => dx = 0 ∧ dy = 1
  | .L, dx, dy => dx = 0 ∧ 0 < dy
  | .N, dx, dy => dx.natAbs = 1 ∧ dy = 2
  | .S, dx, dy => dx.natAbs ≤ 1 ∧ dy = 1 ∨ dx.natAbs = 1 ∧ dy = -1
  | .B, dx, dy => Diagonal dx dy
  | .R, dx, dy => Straight dx dy
  | .K, dx, dy => Adjacent dx dy
  | .plusB, dx, dy => Diagonal dx dy ∨ Adjacent dx dy
  | .plusR, dx, dy => Straight dx dy ∨ Adjacent dx dy
  | _, dx, dy => dx.natAbs ≤ 1 ∧ dy = 1 ∨ dx.natAbs = 1 ∧ dy = 0 ∨ dx = 0 ∧ dy = -1

/-- The squares between two squares of a line are empty. -/
def Clear (board : Board) (origin : Square) (dx dy : ℤ) : Prop :=
  ∀ k : ℕ, 0 < k → k < max dx.natAbs dy.natAbs → board (origin.shift (dx.sign * k) (dy.sign * k)) = none

/-- The rules for a move of a piece on the board. Only a knight jumps. -/
structure LegalMove (board : Board) (color : Color) (role : Role) (origin destination : Square) (promote : Bool) :
    Prop where
  piece : board origin = some (color, role)
  bounds : destination.InBounds
  free : ∀ r, board destination ≠ some (color, r)
  reaches : Reaches role (destination.file - origin.file) ((destination.rank - origin.rank) * forward color)
  clear : role ≠ .N → Clear board origin (destination.file - origin.file) (destination.rank - origin.rank)
  promotion : promote = true → promotable role = true ∧ (Within color 3 origin.rank ∨ Within color 3 destination.rank)
  compulsory : DeadEnd color role destination.rank → promote = true

/-- The rules for a drop: on an empty square, not on a dead end, no second pawn on the file. -/
structure LegalDrop (board : Board) (color : Color) (hand : Role → ℕ) (role : Role) (destination : Square) : Prop where
  held : role ∈ handRoles ∧ 0 < hand role
  bounds : destination.InBounds
  empty : board destination = none
  alive : ¬DeadEnd color role destination.rank
  single : role = .P → ∀ s : Square, s.InBounds → s.file = destination.file → board s ≠ some (color, .P)

def Legal (board : Board) (color : Color) (hand : Role → ℕ) : Usi → Prop
  | .move origin destination promote =>
    ∃ role, origin.InBounds ∧ LegalMove board color role origin destination promote
  | .drop role destination => LegalDrop board color hand role destination

/-- The board shows what was observed. -/
structure Agrees (o : Observation) (board : Board) : Prop where
  own : ∀ s : Square, s.InBounds → ∀ role, board s = some (o.color, role) ↔ ⟨s, role⟩ ∈ o.pieces
  known : ∀ e ∈ o.knownEnemies, ∃ role, board e.square = some (o.color.other, role)

/-! ## Movement -/

variable {rank dx dy : ℤ} {color : Color} {role : Role} {d : ℤ × ℤ} {o : Observation} {p : Piece}
    {s : Square} {c : Candidate}

theorem mustPromote_iff (color : Color) (role : Role) (h : 1 ≤ rank ∧ rank ≤ 9) :
    mustPromote color role rank = true ↔ DeadEnd color role rank := by
  cases color with
  | b =>
    simp only [mustPromote, DeadEnd, Within, Bool.or_eq_true, Bool.and_eq_true, decide_eq_true_eq]
    have : rank = 1 ↔ rank ≤ 1 := by omega
    rw [this]
  | w =>
    simp only [mustPromote, DeadEnd, Within, Bool.or_eq_true, Bool.and_eq_true, decide_eq_true_eq]
    have h1 : rank = 9 ↔ 10 - 1 ≤ rank := by omega
    have h2 : 8 ≤ rank ↔ 10 - 2 ≤ rank := by omega
    rw [h1, h2]

theorem promotionZone_iff : promotionZone color rank = true ↔ Within color 3 rank := by
  cases color with
  | b => simp [promotionZone, Within]
  | w =>
    simp only [promotionZone, Within, decide_eq_true_eq]
    omega

theorem deadEnd_promotable (h : DeadEnd color role rank) :
    promotable role = true ∧ Within color 3 rank := by
  rcases h with ⟨rfl | rfl, h⟩ | ⟨rfl, h⟩ <;> refine ⟨rfl, ?_⟩ <;> cases color <;> simp only [Within] at h ⊢ <;> omega

theorem orthogonal_ray :
    (∃ d ∈ orthogonals, ∃ k : ℕ, 1 ≤ k ∧ dx = d.1 * k ∧ dy = d.2 * k) ↔ Straight dx dy := by
  simp only [orthogonals, mem_cons, not_mem_nil, or_false, Straight]
  constructor
  · rintro ⟨d, rfl | rfl | rfl | rfl, k, hk, h1, h2⟩ <;> simp only at h1 h2 <;> omega
  · rintro (⟨hx, hy⟩ | ⟨hx, hy⟩)
    · rcases lt_or_gt_of_ne hy with hlt | hgt
      · exact ⟨(0, -1), by simp, dy.natAbs, by omega, by simp [hx], by simp only; omega⟩
      · exact ⟨(0, 1), by simp, dy.natAbs, by omega, by simp [hx], by simp only; omega⟩
    · rcases lt_or_gt_of_ne hx with hlt | hgt
      · exact ⟨(-1, 0), by simp, dx.natAbs, by omega, by simp only; omega, by simp [hy]⟩
      · exact ⟨(1, 0), by simp, dx.natAbs, by omega, by simp only; omega, by simp [hy]⟩

theorem diagonal_ray :
    (∃ d ∈ diagonals, ∃ k : ℕ, 1 ≤ k ∧ dx = d.1 * k ∧ dy = d.2 * k) ↔ Diagonal dx dy := by
  simp only [diagonals, mem_cons, not_mem_nil, or_false, Diagonal]
  constructor
  · rintro ⟨d, rfl | rfl | rfl | rfl, k, hk, h1, h2⟩ <;> simp only at h1 h2 <;> omega
  · rintro ⟨heq, hx⟩
    rcases lt_or_gt_of_ne hx with hlt | hgt
    · rcases le_or_gt dy 0 with hy | hy
      · exact ⟨(-1, -1), by simp, dx.natAbs, by omega, by simp only; omega, by simp only; omega⟩
      · exact ⟨(-1, 1), by simp, dx.natAbs, by omega, by simp only; omega, by simp only; omega⟩
    · rcases le_or_gt dy 0 with hy | hy
      · exact ⟨(1, -1), by simp, dx.natAbs, by omega, by simp only; omega, by simp only; omega⟩
      · exact ⟨(1, 1), by simp, dx.natAbs, by omega, by simp only; omega, by simp only; omega⟩

theorem forward_cases (color : Color) : forward color = -1 ∨ forward color = 1 := by
  cases color with
  | b => exact .inl rfl
  | w => exact .inr rfl

theorem mem_orthogonals : (dx, dy) ∈ orthogonals ↔ Straight dx dy ∧ Adjacent dx dy := by
  simp only [orthogonals, Straight, Adjacent, mem_cons, Prod.mk.injEq, not_mem_nil, or_false]
  omega

theorem mem_diagonals : (dx, dy) ∈ diagonals ↔ Diagonal dx dy ∧ Adjacent dx dy := by
  simp only [diagonals, Diagonal, Adjacent, mem_cons, Prod.mk.injEq, not_mem_nil, or_false]
  omega

theorem mem_gold {f : ℤ} (hf : f = -1 ∨ f = 1) :
    (dx, dy) ∈ gold.map (fun d => (d.1, d.2 * f)) ↔
      dx.natAbs ≤ 1 ∧ dy * f = 1 ∨ dx.natAbs = 1 ∧ dy * f = 0 ∨ dx = 0 ∧ dy * f = -1 := by
  simp only [gold, map_cons, map_nil, mem_cons, Prod.mk.injEq, not_mem_nil, or_false]
  rcases hf with rfl | rfl <;> omega

/-- A role reaches an offset by a step or along a ray. -/
theorem reaches_iff (role : Role) (color : Color) (dx dy : ℤ) :
    Reaches role dx (dy * forward color) ↔ (dx, dy) ∈ (movement role (forward color) false).steps ∨
      ∃ d ∈ (movement role (forward color) false).rays, ∃ k : ℕ, 1 ≤ k ∧ dx = d.1 * k ∧ dy = d.2 * k := by
  have hf := forward_cases color
  generalize forward color = f at hf
  have hstraight : Straight dx (dy * f) ↔ Straight dx dy := by
    unfold Straight
    rcases hf with rfl | rfl <;> omega
  have hdiagonal : Diagonal dx (dy * f) ↔ Diagonal dx dy := by
    unfold Diagonal
    rcases hf with rfl | rfl <;> omega
  have hadjacent : Adjacent dx (dy * f) ↔ Adjacent dx dy := by
    unfold Adjacent
    rcases hf with rfl | rfl <;> omega
  have hking : Adjacent dx dy ↔ Straight dx dy ∧ Adjacent dx dy ∨ Diagonal dx dy ∧ Adjacent dx dy := by
    unfold Straight Diagonal Adjacent
    omega
  cases role with
  | G => simpa [Reaches, movement] using (mem_gold hf).symm
  | plusP => simpa [Reaches, movement] using (mem_gold hf).symm
  | plusL => simpa [Reaches, movement] using (mem_gold hf).symm
  | plusN => simpa [Reaches, movement] using (mem_gold hf).symm
  | plusS => simpa [Reaches, movement] using (mem_gold hf).symm
  | P =>
    simp only [Reaches, movement, mem_singleton, Prod.mk.injEq, not_mem_nil, false_and, exists_const, or_false]
    rcases hf with rfl | rfl <;> omega
  | N =>
    simp only [Reaches, movement, mem_cons, Prod.mk.injEq, not_mem_nil, false_and, exists_const, or_false]
    rcases hf with rfl | rfl <;> omega
  | S =>
    simp only [Reaches, movement, mem_cons, Prod.mk.injEq, not_mem_nil, false_and, exists_const, or_false]
    rcases hf with rfl | rfl <;> omega
  | K =>
    have hk : (dx, dy) ∈ orthogonals ++ diagonals ↔ Adjacent dx dy := by
      rw [mem_append, mem_orthogonals, mem_diagonals]
      exact hking.symm
    simpa [Reaches, movement, hadjacent] using hk.symm
  | L =>
    simp only [Reaches, movement, rayMovement, Bool.false_eq_true, if_false, not_mem_nil, false_or,
      mem_singleton, exists_eq_left]
    constructor
    · rintro ⟨rfl, hy⟩
      refine ⟨(dy * f).natAbs, by omega, by simp, ?_⟩
      rcases hf with rfl | rfl <;> omega
    · rintro ⟨k, hk, h1, h2⟩
      rcases hf with rfl | rfl <;> omega
  | B =>
    simp only [Reaches, movement, rayMovement, Bool.false_eq_true, if_false, not_mem_nil, false_or, diagonal_ray]
    exact hdiagonal
  | R =>
    simp only [Reaches, movement, rayMovement, Bool.false_eq_true, if_false, not_mem_nil, false_or, orthogonal_ray]
    exact hstraight
  | plusB =>
    simp only [Reaches, movement, rayMovement, Bool.false_eq_true, if_false, diagonal_ray, mem_orthogonals, hdiagonal,
      hadjacent]
    tauto
  | plusR =>
    simp only [Reaches, movement, rayMovement, Bool.false_eq_true, if_false, orthogonal_ray, mem_diagonals, hstraight,
      hadjacent]
    tauto

theorem steps_short (hrole : role ≠ .N)
    (h : (dx, dy) ∈ (movement role (forward color) false).steps) : dx.natAbs ≤ 1 ∧ dy.natAbs ≤ 1 := by
  have hf := forward_cases color
  generalize forward color = f at hf h
  cases role with
  | N => exact absurd rfl hrole
  | G | plusP | plusL | plusN | plusS =>
    have := (mem_gold hf).mp h
    rcases hf with rfl | rfl <;> omega
  | P =>
    simp only [movement, mem_singleton, Prod.mk.injEq] at h
    rcases hf with rfl | rfl <;> omega
  | S =>
    simp only [movement, mem_cons, Prod.mk.injEq, not_mem_nil, or_false] at h
    rcases hf with rfl | rfl <;> omega
  | K =>
    rcases mem_append.mp h with h | h
    · exact ⟨(mem_orthogonals.mp h).2.1, (mem_orthogonals.mp h).2.2.1⟩
    · exact ⟨(mem_diagonals.mp h).2.1, (mem_diagonals.mp h).2.2.1⟩
  | L | B | R => cases h
  | plusB => exact ⟨(mem_orthogonals.mp h).2.1, (mem_orthogonals.mp h).2.2.1⟩
  | plusR => exact ⟨(mem_diagonals.mp h).2.1, (mem_diagonals.mp h).2.2.1⟩

/-- A direction of a ray. -/
structure Unit (d : ℤ × ℤ) : Prop where
  fst : d.1 = -1 ∨ d.1 = 0 ∨ d.1 = 1
  snd : d.2 = -1 ∨ d.2 = 0 ∨ d.2 = 1
  ne : d.1 ≠ 0 ∨ d.2 ≠ 0

theorem rays_unit (h : d ∈ (movement role (forward color) false).rays) :
    Unit d ∧ role ≠ .N := by
  have horthogonal : d ∈ orthogonals → Unit d := by
    intro h
    simp only [orthogonals, mem_cons, not_mem_nil, or_false] at h
    rcases h with rfl | rfl | rfl | rfl <;> exact ⟨by simp, by simp, by simp⟩
  have hdiagonal : d ∈ diagonals → Unit d := by
    intro h
    simp only [diagonals, mem_cons, not_mem_nil, or_false] at h
    rcases h with rfl | rfl | rfl | rfl <;> exact ⟨by simp, by simp, by simp⟩
  cases role with
  | L =>
    refine ⟨?_, by decide⟩
    obtain rfl := mem_singleton.mp h
    rcases forward_cases color with hf | hf <;> exact ⟨by simp, by simp [hf], by simp [hf]⟩
  | B => exact ⟨hdiagonal h, by decide⟩
  | plusB => exact ⟨hdiagonal h, by decide⟩
  | R => exact ⟨horthogonal h, by decide⟩
  | plusR => exact ⟨horthogonal h, by decide⟩
  | P | N | S | G | K | plusP | plusL | plusN | plusS => cases h

/-! ## Destinations -/

section Squares

variable {o : Observation} {board : Board} {source : Square} {s : Square}

/-- A square of a ray: everything up to it is free of own pieces, everything before it of known enemies. -/
theorem mem_raySquares {d : ℤ × ℤ} {n step : ℕ} :
    s ∈ o.raySquares source d n step ↔ ∃ i < n, s = source.shift (d.1 * (step + i : ℕ)) (d.2 * (step + i : ℕ)) ∧
      (∀ j ≤ i, (source.shift (d.1 * (step + j : ℕ)) (d.2 * (step + j : ℕ))).InBounds ∧
        ¬o.Occupied (source.shift (d.1 * (step + j : ℕ)) (d.2 * (step + j : ℕ)))) ∧
      ∀ j < i, ¬o.Known (source.shift (d.1 * (step + j : ℕ)) (d.2 * (step + j : ℕ))) := by
  induction n generalizing step with
  | zero => simp [Observation.raySquares]
  | succ n ih =>
    unfold Observation.raySquares
    by_cases hblocked : ¬(source.shift (d.1 * step) (d.2 * step)).InBounds ∨
        o.Occupied (source.shift (d.1 * step) (d.2 * step))
    · rw [if_pos hblocked]
      refine ⟨fun h => (nomatch h), ?_⟩
      rintro ⟨i, -, -, hfree, -⟩
      obtain ⟨hin, hocc⟩ := hfree 0 (Nat.zero_le i)
      exact absurd hblocked (not_or.mpr ⟨not_not_intro hin, hocc⟩)
    rw [if_neg hblocked]
    obtain ⟨hin, hocc⟩ := not_or.mp hblocked
    rw [not_not] at hin
    by_cases hknown : o.Known (source.shift (d.1 * step) (d.2 * step))
    · rw [if_pos hknown, mem_singleton]
      constructor
      · rintro rfl
        refine ⟨0, Nat.succ_pos n, rfl, ?_, fun j hj => (nomatch hj)⟩
        intro j hj
        obtain rfl := Nat.le_zero.mp hj
        exact ⟨hin, hocc⟩
      · rintro ⟨i, -, hs, -, hfree⟩
        cases i with
        | zero => exact hs
        | succ i => exact absurd hknown (hfree 0 (Nat.succ_pos i))
    · rw [if_neg hknown, mem_cons, ih]
      constructor
      · rintro (rfl | ⟨i, hi, hs, hfree, hunknown⟩)
        · refine ⟨0, Nat.succ_pos n, rfl, ?_, fun j hj => (nomatch hj)⟩
          intro j hj
          obtain rfl := Nat.le_zero.mp hj
          exact ⟨hin, hocc⟩
        · refine ⟨i + 1, Nat.succ_lt_succ hi, by rw [hs, Nat.add_right_comm, Nat.add_assoc], ?_, ?_⟩
          · intro j hj
            cases j with
            | zero => exact ⟨hin, hocc⟩
            | succ j =>
              have := hfree j (Nat.le_of_succ_le_succ hj)
              rwa [Nat.add_right_comm, Nat.add_assoc] at this
          · intro j hj
            cases j with
            | zero => exact hknown
            | succ j =>
              have := hunknown j (Nat.lt_of_succ_lt_succ hj)
              rwa [Nat.add_right_comm, Nat.add_assoc] at this
      · rintro ⟨i, hi, hs, hfree, hunknown⟩
        cases i with
        | zero => exact .inl hs
        | succ i =>
          refine .inr ⟨i, Nat.lt_of_succ_lt_succ hi, by rw [hs, Nat.add_right_comm, Nat.add_assoc], ?_, ?_⟩
          · intro j hj
            have := hfree (j + 1) (Nat.succ_le_succ hj)
            rwa [← Nat.add_assoc, Nat.add_right_comm] at this
          · intro j hj
            have := hunknown (j + 1) (Nat.succ_lt_succ hj)
            rwa [← Nat.add_assoc, Nat.add_right_comm] at this

/-- The ray of eight squares from a square, in steps from its source. -/
theorem mem_ray {d : ℤ × ℤ} :
    s ∈ o.raySquares source d 8 1 ↔ ∃ k : ℕ, 1 ≤ k ∧ k ≤ 8 ∧ s = source.shift (d.1 * k) (d.2 * k) ∧
      (∀ j : ℕ, 1 ≤ j → j ≤ k → (source.shift (d.1 * j) (d.2 * j)).InBounds ∧
        ¬o.Occupied (source.shift (d.1 * j) (d.2 * j))) ∧
      ∀ j : ℕ, 1 ≤ j → j < k → ¬o.Known (source.shift (d.1 * j) (d.2 * j)) := by
  rw [mem_raySquares]
  constructor
  · rintro ⟨i, hi, hs, hfree, hunknown⟩
    refine ⟨1 + i, by omega, by omega, hs, ?_, ?_⟩
    · intro j hj hji
      have := hfree (j - 1) (by omega)
      rwa [Nat.add_sub_cancel' hj] at this
    · intro j hj hji
      have := hunknown (j - 1) (by omega)
      rwa [Nat.add_sub_cancel' hj] at this
  · rintro ⟨k, hk, hk8, hs, hfree, hunknown⟩
    refine ⟨k - 1, by omega, by rw [hs, Nat.add_sub_cancel' hk], ?_, ?_⟩
    · intro j hj
      exact hfree (1 + j) (by omega) (by omega)
    · intro j hj
      exact hunknown (1 + j) (by omega) (by omega)

theorem Agrees.own_of_occupied (h : Agrees o board) (hocc : o.Occupied s) : ∃ role, board s = some (o.color, role) := by
  obtain ⟨p, hp, rfl⟩ := mem_map.mp hocc
  exact ⟨p.role, (h.own _ (o.pieces_inBounds p hp) p.role).mpr hp⟩

theorem Agrees.not_occupied (h : Agrees o board) (hfree : ∀ role, board s ≠ some (o.color, role)) : ¬o.Occupied s := by
  intro hocc
  obtain ⟨role, hrole⟩ := h.own_of_occupied hocc
  exact hfree role hrole

theorem Agrees.some_of_known (h : Agrees o board) (hknown : o.Known s) :
    ∃ role, board s = some (o.color.other, role) := by
  obtain ⟨e, he, rfl⟩ := mem_map.mp hknown
  exact h.known e he

end Squares

/-- A unit direction, `k` times: its signs and its length. -/
theorem Unit.times (h : Unit d) {k : ℕ} (hk : 1 ≤ k) :
    (d.1 * k).sign = d.1 ∧ (d.2 * k).sign = d.2 ∧ max (d.1 * (k : ℤ)).natAbs (d.2 * (k : ℤ)).natAbs = k := by
  have hpos : ((k : ℤ)).sign = 1 := Int.sign_eq_one_of_pos (by omega)
  obtain ⟨h1, h2, hne⟩ := h
  rw [Int.sign_mul, Int.sign_mul, hpos, mul_one, mul_one, Int.natAbs_mul, Int.natAbs_mul, Int.natAbs_natCast]
  refine ⟨?_, ?_, ?_⟩
  · rcases h1 with h1 | h1 | h1 <;> rw [h1] <;> rfl
  · rcases h2 with h2 | h2 | h2 <;> rw [h2] <;> rfl
  · rcases h1 with h1 | h1 | h1 <;> rcases h2 with h2 | h2 | h2 <;> simp_all

/-- A destination is a free square that the role reaches, with no own piece and no known enemy before it. -/
theorem mem_destinations (hp : p ∈ o.pieces) :
    s ∈ o.destinations false p ↔ s.InBounds ∧ ¬o.Occupied s ∧
      Reaches p.role (s.file - p.square.file) ((s.rank - p.square.rank) * forward o.color) ∧
      (p.role ≠ .N → ∀ k : ℕ, 0 < k → k < max (s.file - p.square.file).natAbs (s.rank - p.square.rank).natAbs →
        ¬o.Occupied (p.square.shift ((s.file - p.square.file).sign * k) ((s.rank - p.square.rank).sign * k)) ∧
        ¬o.Known (p.square.shift ((s.file - p.square.file).sign * k) ((s.rank - p.square.rank).sign * k))) := by
  have hsource := o.pieces_inBounds p hp
  unfold Observation.destinations
  rw [mem_append, reaches_iff]
  constructor
  · rintro (h | h)
    · obtain ⟨hs, hfree⟩ := mem_filter.mp h
      obtain ⟨d, hd, rfl⟩ := mem_map.mp hs
      obtain ⟨hin, hocc⟩ := of_decide_eq_true hfree
      rw [Square.shift_file, Square.shift_rank]
      refine ⟨hin, hocc, .inl hd, ?_⟩
      intro hrole k hk hlt
      obtain ⟨h3, h4⟩ := steps_short hrole hd
      omega
    · obtain ⟨d, hd, hs⟩ := mem_flatMap.mp h
      obtain ⟨k, hk, -, rfl, hfree, hunknown⟩ := mem_ray.mp hs
      obtain ⟨hsign1, hsign2, hlength⟩ := (rays_unit hd).1.times hk
      rw [Square.shift_file, Square.shift_rank, hsign1, hsign2, hlength]
      refine ⟨(hfree k hk le_rfl).1, (hfree k hk le_rfl).2, .inr ⟨d, hd, k, hk, rfl, rfl⟩, ?_⟩
      intro _ j hj hlt
      exact ⟨(hfree j hj hlt.le).2, hunknown j hj hlt⟩
  · rintro ⟨hin, hocc, hstep | ⟨d, hd, k, hk, h1, h2⟩, hclear⟩
    · refine .inl (mem_filter.mpr ⟨mem_map.mpr ⟨_, hstep, ?_⟩, decide_eq_true ⟨hin, hocc⟩⟩)
      exact Square.shift_sub _ _
    · obtain ⟨hunit, hrole⟩ := rays_unit hd
      obtain ⟨hsign1, hsign2, hlength⟩ := hunit.times hk
      have hs : s = p.square.shift (d.1 * k) (d.2 * k) := by
        rw [← h1, ← h2]
        exact (Square.shift_sub _ _).symm
      have hbetween := hclear hrole
      rw [h1, h2, hsign1, hsign2, hlength] at hbetween
      -- both ends are on the board, so the squares between are and there are at most eight
      obtain ⟨hf1, hf2, hr1, hr2⟩ := hsource
      rw [hs] at hin
      obtain ⟨hg1, hg2, hq1, hq2⟩ := hin
      simp only [Square.shift] at hg1 hg2 hq1 hq2
      refine .inr (mem_flatMap.mpr ⟨d, hd, mem_ray.mpr ⟨k, hk, ?_, hs, ?_, ?_⟩⟩)
      · rcases hunit.fst with hd1 | hd1 | hd1 <;> rcases hunit.snd with hd2 | hd2 | hd2 <;>
          rw [hd1] at hg1 hg2 <;> rw [hd2] at hq1 hq2 <;> have hne := hunit.ne <;> rw [hd1, hd2] at hne <;> omega
      · intro j hj hjk
        refine ⟨?_, ?_⟩
        · simp only [Square.InBounds, Square.shift]
          rcases hunit.fst with hd1 | hd1 | hd1 <;> rcases hunit.snd with hd2 | hd2 | hd2 <;>
            rw [hd1] at hg1 hg2 ⊢ <;> rw [hd2] at hq1 hq2 ⊢ <;> omega
        · rcases Nat.lt_or_ge j k with hlt | hge
          · exact (hbetween j hj hlt).1
          · have hjk' : j = k := le_antisymm hjk hge
            rw [hjk', ← hs]
            exact hocc
      · intro j hj hlt
        exact (hbetween j hj hlt).2

/-- What is generated for a destination: every promotion that the rules allow. -/
theorem mem_append (hs : s.InBounds) :
    c ∈ o.append false p s ↔ ∃ promote, c = ⟨.move p.square s promote, p.role⟩ ∧
      (promote = true → promotable p.role = true ∧ (Within o.color 3 p.square.rank ∨ Within o.color 3 s.rank)) ∧
      (DeadEnd o.color p.role s.rank → promote = true) := by
  have hm := mustPromote_iff o.color p.role ⟨hs.2.2.1, hs.2.2.2⟩
  have hmay : (mustPromote o.color p.role s.rank || (!false && promotable p.role &&
      (promotionZone o.color p.square.rank || promotionZone o.color s.rank))) = true ↔
      promotable p.role = true ∧ (Within o.color 3 p.square.rank ∨ Within o.color 3 s.rank) := by
    simp only [Bool.not_false, Bool.true_and, Bool.or_eq_true, Bool.and_eq_true, hm, promotionZone_iff]
    constructor
    · rintro (h | h)
      · exact ⟨(deadEnd_promotable h).1, .inr (deadEnd_promotable h).2⟩
      · exact h
    · exact .inr
  unfold Observation.append
  rw [List.mem_append]
  constructor
  · rintro (h | h)
    · split at h
      · cases h
      · next hnot =>
        obtain rfl := List.mem_singleton.mp h
        exact ⟨false, rfl, fun h => (nomatch h), fun hdead => absurd (hm.mpr hdead) hnot⟩
    · split at h
      · next hyes =>
        obtain rfl := List.mem_singleton.mp h
        exact ⟨true, rfl, fun _ => hmay.mp hyes, fun _ => rfl⟩
      · cases h
  · rintro ⟨promote, rfl, hpromotion, hcompulsory⟩
    cases promote with
    | false =>
      refine .inl ?_
      rw [if_neg fun h => by simpa using hcompulsory (hm.mp h)]
      exact List.mem_singleton_self _
    | true =>
      refine .inr ?_
      rw [if_pos (hmay.mpr (hpromotion rfl))]
      exact List.mem_singleton_self _

/-! ## Drops -/

theorem mem_boardSquares : s ∈ Observation.boardSquares ↔ s.InBounds := by
  unfold Observation.boardSquares
  simp only [mem_flatMap, mem_map, mem_range]
  constructor
  · rintro ⟨y, hy, x, hx, rfl⟩
    simp only [Square.InBounds]
    omega
  · rintro ⟨hf1, hf2, hr1, hr2⟩
    refine ⟨(s.rank - 1).toNat, by omega, (9 - s.file).toNat, by omega, ?_⟩
    cases s
    simp only [Square.mk.injEq]
    simp only at hf1 hf2 hr1 hr2
    omega

theorem mem_dropSquares :
    s ∈ o.dropSquares role ↔ s.InBounds ∧ ¬o.Occupied s ∧ ¬o.Known s ∧ ¬DeadEnd o.color role s.rank ∧
      (role = .P → ∀ p ∈ o.pieces, p.role = .P → p.square.file ≠ s.file) := by
  unfold Observation.dropSquares
  rw [mem_filter, mem_boardSquares]
  constructor
  · rintro ⟨hin, h⟩
    have h := of_decide_eq_true h
    simp only [not_or, not_and, not_exists] at h
    obtain ⟨hocc, hknown, hdead, hpawn⟩ := h
    rw [mustPromote_iff _ _ ⟨hin.2.2.1, hin.2.2.2⟩] at hdead
    exact ⟨hin, hocc, hknown, hdead, hpawn⟩
  · rintro ⟨hin, hocc, hknown, hdead, hpawn⟩
    refine ⟨hin, decide_eq_true ?_⟩
    simp only [not_or, not_and, not_exists]
    rw [mustPromote_iff _ _ ⟨hin.2.2.1, hin.2.2.2⟩]
    exact ⟨hocc, hknown, hdead, hpawn⟩

theorem mem_drops :
    c ∈ o.drops ↔ ∃ role ∈ handRoles, 0 < o.hand role ∧ ∃ s ∈ o.dropSquares role, c = ⟨.drop role s, role⟩ := by
  unfold Observation.drops
  rw [mem_flatMap]
  constructor
  · rintro ⟨role, hrole, h⟩
    split at h
    · cases h
    · next hheld =>
      obtain ⟨s, hs, rfl⟩ := mem_map.mp h
      exact ⟨role, hrole, Nat.pos_of_ne_zero hheld, s, hs, rfl⟩
  · rintro ⟨role, hrole, hheld, s, hs, rfl⟩
    refine ⟨role, hrole, ?_⟩
    rw [if_neg hheld.ne']
    exact mem_map.mpr ⟨s, hs, rfl⟩

theorem mem_candidatesFor :
    c ∈ o.candidatesFor false ↔
      (∃ p ∈ o.pieces, ∃ s ∈ o.destinations false p, c ∈ o.append false p s) ∨ c ∈ o.drops := by
  unfold Observation.candidatesFor Observation.sortedPieces
  simp only [List.mem_append, List.mem_flatMap, List.mem_insertionSort, Bool.false_eq_true, if_false]

/-! ## No legal move is generated away -/

theorem candidate_of_legal {board : Board} (h : Agrees o board) {usi : Usi}
    (hl : Legal board o.color o.hand usi) : ∃ c ∈ o.candidatesFor false, c.usi = usi := by
  cases usi with
  | move origin destination promote =>
    obtain ⟨role, horigin, hl⟩ := hl
    have hp : ⟨origin, role⟩ ∈ o.pieces := (h.own origin horigin role).mp hl.piece
    refine ⟨⟨.move origin destination promote, role⟩, mem_candidatesFor.mpr (.inl ⟨_, hp, destination, ?_, ?_⟩), rfl⟩
    · refine (mem_destinations hp).mpr ⟨hl.bounds, h.not_occupied hl.free, hl.reaches, ?_⟩
      intro hrole k hk hlt
      have hempty := hl.clear hrole k hk hlt
      refine ⟨h.not_occupied fun r hr => ?_, fun hknown => ?_⟩
      · rw [hempty] at hr
        cases hr
      · obtain ⟨r, hr⟩ := h.some_of_known hknown
        rw [hempty] at hr
        cases hr
    · exact (mem_append hl.bounds).mpr ⟨promote, rfl, hl.promotion, hl.compulsory⟩
  | drop role destination =>
    have hempty := hl.empty
    refine ⟨⟨.drop role destination, role⟩, mem_candidatesFor.mpr (.inr (mem_drops.mpr
      ⟨role, hl.held.1, hl.held.2, destination, mem_dropSquares.mpr ⟨hl.bounds, ?_, ?_, hl.alive, ?_⟩, rfl⟩)), rfl⟩
    · exact h.not_occupied fun r hr => by rw [hempty] at hr; cases hr
    · intro hknown
      obtain ⟨r, hr⟩ := h.some_of_known hknown
      rw [hempty] at hr
      cases hr
    · intro hpawn p hp hprole hfile
      have hin := o.pieces_inBounds p hp
      have hboard := (h.own p.square hin .P).mpr (hprole ▸ hp)
      exact hl.single hpawn p.square hin hfile hboard

/-- The board with the own pieces, a gold on every known enemy square and nothing else. -/
def Observation.seenBoard (o : Observation) : Board := fun s =>
  match o.pieces.find? fun p => p.square = s with
  | some p => some (o.color, p.role)
  | none => if o.Known s then some (o.color.other, .G) else none

section SeenBoard

variable {o : Observation} {s : Square}

theorem Color.other_ne (color : Color) : color.other ≠ color := by
  cases color <;> decide

theorem seenBoard_own {p : Piece} (hp : p ∈ o.pieces) : o.seenBoard p.square = some (o.color, p.role) := by
  have hfind : o.pieces.find? (fun q => q.square = p.square) = some p := by
    obtain ⟨q, hq⟩ : ∃ q, o.pieces.find? (fun q => q.square = p.square) = some q := by
      rw [← Option.isSome_iff_exists, List.find?_isSome]
      exact ⟨p, hp, by simp⟩
    have hsquare : q.square = p.square := by simpa using List.find?_some hq
    rw [hq, inj_on_of_nodup_map o.pieces_nodup (mem_of_find?_eq_some hq) hp hsquare]
  simp only [Observation.seenBoard, hfind]

theorem seenBoard_of_not_occupied (h : ¬o.Occupied s) :
    o.seenBoard s = if o.Known s then some (o.color.other, .G) else none := by
  have hfind : o.pieces.find? (fun p => p.square = s) = none := by
    rw [List.find?_eq_none]
    intro p hp he
    exact h (mem_map.mpr ⟨p, hp, by simpa using he⟩)
  simp only [Observation.seenBoard, hfind]

theorem seenBoard_free (h : ¬o.Occupied s) (role : Role) : o.seenBoard s ≠ some (o.color, role) := by
  rw [seenBoard_of_not_occupied h]
  split
  · intro he
    exact o.color.other_ne (congrArg Prod.fst (Option.some.inj he))
  · exact fun he => nomatch he

theorem seenBoard_agrees (h : ∀ s, o.Known s → ¬o.Occupied s) : Agrees o o.seenBoard where
  own s hs role := by
    constructor
    · intro he
      by_cases hocc : o.Occupied s
      · obtain ⟨p, hp, rfl⟩ := mem_map.mp hocc
        rw [seenBoard_own hp] at he
        obtain rfl : p.role = role := congrArg Prod.snd (Option.some.inj he)
        exact hp
      · exact absurd he (seenBoard_free hocc role)
    · intro hp
      exact seenBoard_own hp
  known e he := by
    have hknown : o.Known e.square := mem_map_of_mem he
    exact ⟨.G, by rw [seenBoard_of_not_occupied (h _ hknown), if_pos hknown]⟩

theorem Agrees.consistent {board : Board} (h : Agrees o board) : o.Known s → ¬o.Occupied s := by
  intro hknown hocc
  obtain ⟨r, hr⟩ := h.some_of_known hknown
  obtain ⟨r', hr'⟩ := h.own_of_occupied hocc
  rw [hr] at hr'
  exact o.color.other_ne (congrArg Prod.fst (Option.some.inj hr'))

/-- Every candidate is legal on the board with what is seen. -/
theorem legal_of_candidate {c : Candidate} (hc : c ∈ o.candidatesFor false) :
    Legal o.seenBoard o.color o.hand c.usi := by
  rcases mem_candidatesFor.mp hc with ⟨p, hp, s, hs, hc⟩ | hc
  · obtain ⟨hin, hocc, hreaches, hclear⟩ := (mem_destinations hp).mp hs
    obtain ⟨promote, rfl, hpromotion, hcompulsory⟩ := (mem_append hin).mp hc
    refine ⟨p.role, o.pieces_inBounds p hp, seenBoard_own hp, hin, seenBoard_free hocc, hreaches, ?_, hpromotion,
      hcompulsory⟩
    intro hrole k hk hlt
    obtain ⟨hfree, hunknown⟩ := hclear hrole k hk hlt
    rw [seenBoard_of_not_occupied hfree, if_neg hunknown]
  · obtain ⟨role, hrole, hheld, s, hs, rfl⟩ := mem_drops.mp hc
    obtain ⟨hin, hocc, hunknown, halive, hpawn⟩ := mem_dropSquares.mp hs
    refine ⟨⟨hrole, hheld⟩, hin, ?_, halive, ?_⟩
    · rw [seenBoard_of_not_occupied hocc, if_neg hunknown]
    · intro hP t ht hfile hboard
      by_cases hocc' : o.Occupied t
      · obtain ⟨p, hp, rfl⟩ := mem_map.mp hocc'
        rw [seenBoard_own hp] at hboard
        exact hpawn hP p hp (congrArg Prod.snd (Option.some.inj hboard)) hfile
      · exact seenBoard_free hocc' .P hboard

end SeenBoard

/-- A move that is legal on some agreeing board is generated. Where any board agrees, a candidate is legal on one. -/
theorem candidates_legal (o : Observation) :
    (∀ board, Agrees o board → ∀ usi, Legal board o.color o.hand usi → ∃ c ∈ o.candidatesFor false, c.usi = usi) ∧
    ((∃ board, Agrees o board) →
      ∀ c ∈ o.candidatesFor false, ∃ board, Agrees o board ∧ Legal board o.color o.hand c.usi) := by
  refine ⟨fun board h usi hl => candidate_of_legal h hl, ?_⟩
  rintro ⟨board, h⟩ c hc
  exact ⟨o.seenBoard, seenBoard_agrees fun s => h.consistent, legal_of_candidate hc⟩

/-- An own pawn on a square that is also noted as a known enemy. -/
def contradictory : Observation where
  color := .b
  turn := .b
  moveNumber := 1
  pieces := [⟨⟨5, 5⟩, .P⟩]
  hand := fun _ => 0
  inCheck := none
  opponentInCheck := none
  attemptBudget := none
  knownEnemies := [⟨⟨5, 5⟩, 0⟩]
  moveNumber_pos := le_rfl
  pieces_length := by decide
  pieces_inBounds := by decide
  pieces_nodup := by decide
  hand_le := by decide
  attemptBudget_le := by simp
  knownEnemies_length := by decide
  knownEnemies_inBounds := by decide
  knownEnemies_nodup := by decide
  knownEnemies_age := by decide

/-- The pawn still moves, and no board agrees. -/
theorem contradictory_candidate : ¬∀ c ∈ contradictory.candidatesFor false,
    ∃ board, Agrees contradictory board ∧ Legal board contradictory.color contradictory.hand c.usi := by
  intro h
  have hmove : (⟨.move ⟨5, 5⟩ ⟨5, 4⟩ false, .P⟩ : Candidate) ∈ contradictory.candidatesFor false := by decide
  obtain ⟨board, hagrees, -⟩ := h _ hmove
  have hknown : contradictory.Known ⟨5, 5⟩ := by decide
  exact hagrees.consistent hknown (by decide)

end Docich.Tsuitate
