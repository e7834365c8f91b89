import Docich.Tsuitate.Choose
import Docich.Tsuitate.Legality

/-!
# Answers to a check

What attacks a king on a complete board, and what `checkResponses` keeps: every candidate that is legal and leaves the king
unattacked (`legal_responds`).
-/

namespace Docich.Tsuitate

open List

/-! ## The rules of check -/

/-- A piece of the other side reaches the square. -/
def Attacked (board : Board) (color : Color) (king : Square) : Prop :=
  ∃ s role, s.InBounds ∧ board s = some (color.other, role) ∧
    Reaches role (king.file - s.file) ((king.rank - s.rank) * forward color.other) ∧
    (role ≠ .N → Clear board s (king.file - s.file) (king.rank - s.rank))

def Role.promoted : Role → Role
  | .P => .plusP
  | .L => .plusL
  | .N => .plusN
  | .S => .plusS
  | .B => .plusB
  | .R => .plusR
  | role => role

/-- The board after a move of a side. -/
def Board.after (board : Board) (color : Color) : Usi → Board
  | .move origin destination promote => fun s =>
    if s = destination then (board origin).map fun p => (p.1, if promote then p.2.promoted else p.2)
    else if s = origin then none
    else board s
  | .drop role destination => fun s => if s = destination then some (color, role) else board s

/-- No king of the side is attacked. -/
def KingSafe (board : Board) (color : Color) : Prop :=
  ∀ s : Square, s.InBounds → board s = some (color, .K) → ¬Attacked board color s

/-- The board has the own pieces that were observed. -/
def Shows (o : Observation) (board : Board) : Prop :=
  ∀ s : Square, s.InBounds → ∀ role, board s = some (o.color, role) ↔ ⟨s, role⟩ ∈ o.pieces

/-! ## The line of a check -/

variable {role : Role} {color : Color} {dx dy : ℤ} {d : ℤ × ℤ}

theorem reaches_line (hrole : role ≠ .N) (h : Reaches role dx (dy * forward color)) :
    Straight dx dy ∨ Diagonal dx dy := by
  rcases forward_cases color with hf | hf <;> rw [hf] at h <;> cases role <;>
    simp only [Reaches, Straight, Diagonal, Adjacent] at h ⊢ <;> first | exact absurd rfl hrole | omega

/-- An offset on a line is a unit direction, some times. -/
theorem exists_unit (h : Straight dx dy ∨ Diagonal dx dy) :
    ∃ d : ℤ × ℤ, Unit d ∧ ∃ n : ℕ, 1 ≤ n ∧ dx = d.1 * n ∧ dy = d.2 * n := by
  rcases h with h | h
  · obtain ⟨d, hd, n, hn, hx, hy⟩ := orthogonal_ray.mpr h
    exact ⟨d, (@rays_unit .b .R d hd).1, n, hn, hx, hy⟩
  · obtain ⟨d, hd, n, hn, hx, hy⟩ := diagonal_ray.mpr h
    exact ⟨d, (@rays_unit .b .B d hd).1, n, hn, hx, hy⟩

theorem Unit.onLine (h : Unit d) (n : ℕ) : OnLine (d.1 * n) (d.2 * n) := by
  obtain ⟨h1, h2, hne⟩ := h
  unfold OnLine
  rcases h1 with h1 | h1 | h1 <;> rcases h2 with h2 | h2 | h2 <;> rw [h1, h2] <;> simp

/-- The line from the king to a piece that is no knight and reaches it. -/
theorem exists_line {king s : Square} (hrole : role ≠ .N)
    (h : Reaches role (king.file - s.file) ((king.rank - s.rank) * forward color)) :
    ∃ d : ℤ × ℤ, Unit d ∧ ∃ n : ℕ, 1 ≤ n ∧ s = king.shift (d.1 * n) (d.2 * n) := by
  obtain ⟨d, ⟨h1, h2, hne⟩, n, hn, hx, hy⟩ := exists_unit (reaches_line hrole h)
  refine ⟨(-d.1, -d.2), ⟨by simp only; omega, by simp only; omega, by simp only; omega⟩, n, hn, ?_⟩
  cases s
  simp only [Square.shift, Square.mk.injEq, neg_mul] at hx hy ⊢
  omega

/-- The squares between the piece and the king, counted from the king. -/
theorem clear_line (hd : Unit d) {n : ℕ} (hn : 1 ≤ n) (board : Board) (king : Square) :
    Clear board (king.shift (d.1 * n) (d.2 * n)) (king.file - (king.shift (d.1 * n) (d.2 * n)).file)
        (king.rank - (king.shift (d.1 * n) (d.2 * n)).rank) ↔
      ∀ j : ℕ, 0 < j → j < n → board (king.shift (d.1 * j) (d.2 * j)) = none := by
  obtain ⟨hs1, hs2, hlen⟩ := hd.times hn
  have hx : king.file - (king.shift (d.1 * n) (d.2 * n)).file = -(d.1 * n) := by
    simp only [Square.shift]
    omega
  have hy : king.rank - (king.shift (d.1 * n) (d.2 * n)).rank = -(d.2 * n) := by
    simp only [Square.shift]
    omega
  have hsquare : ∀ j ≤ n, (king.shift (d.1 * n) (d.2 * n)).shift (-d.1 * ((n - j : ℕ) : ℤ)) (-d.2 * ((n - j : ℕ) : ℤ)) =
      king.shift (d.1 * j) (d.2 * j) := by
    intro j hj
    have hcast : ((n - j : ℕ) : ℤ) = n - j := by omega
    simp only [Square.shift, Square.mk.injEq, hcast, mul_sub, neg_mul]
    omega
  rw [hx, hy]
  unfold Clear
  rw [Int.natAbs_neg, Int.natAbs_neg, Int.sign_neg, Int.sign_neg, hs1, hs2, hlen]
  constructor
  · intro h j hj hjn
    rw [← hsquare j hjn.le]
    exact h (n - j) (by omega) (by omega)
  · intro h k hk hkn
    have hback := hsquare (n - k) (by omega)
    rw [show n - (n - k) = k by omega] at hback
    rw [hback]
    exact h (n - k) (by omega) (by omega)

/-! ## What is kept -/

section Kept

variable {o : Observation} {board : Board} {king : Square} {c : Candidate}

/-- A move to the knight that gives check. -/
theorem responds_knight (hx : (c.usi.destination.file - king.file).natAbs = 1)
    (hy : c.usi.destination.rank - king.rank = 2 * forward o.color) (hmove : c.usi.isDrop = false) :
    o.responds king c = true := by
  unfold Observation.responds
  split
  · rfl
  · rw [if_pos ⟨hx, hy⟩, hmove]
    rfl

/-- A move onto a line of the king, with no own piece before it. -/
theorem responds_line {d : ℤ × ℤ} (hd : Unit d) {m : ℕ} (hm : 1 ≤ m)
    (hc : c.usi.destination = king.shift (d.1 * m) (d.2 * m))
    (hfree : ∀ j : ℕ, 0 < j → j < m → ¬o.Occupied (king.shift (d.1 * j) (d.2 * j))) : o.responds king c = true := by
  have hline := hd.onLine m
  obtain ⟨hs1, hs2, hlen⟩ := hd.times hm
  have hknight : ¬((d.1 * (m : ℤ)).natAbs = 1 ∧ d.2 * (m : ℤ) = 2 * forward o.color) := by
    rintro ⟨hx, hy⟩
    rcases hline with h | h | h <;> rcases forward_cases o.color with hf | hf <;> omega
  unfold Observation.responds
  dsimp only
  rw [hc, Square.shift_file, Square.shift_rank, if_neg hknight, if_neg (not_not_intro hline)]
  split
  · rfl
  · rw [all_eq_true]
    intro s hs
    obtain ⟨j, hj, rfl⟩ := mem_map.mp hs
    rw [length, hs1, hs2, hlen, mem_range'_1] at *
    exact decide_eq_true (hfree j (by omega) (by omega))

variable {color : Color} {usi : Usi} {s : Square}

/-- A square that the move leaves empty. -/
theorem after_none (hs : board s = none) (hne : s ≠ usi.destination) :
    board.after color usi s = none := by
  cases usi with
  | move origin destination promote =>
    simp only [Usi.destination] at hne
    simp only [Board.after]
    rw [if_neg hne, hs, ite_self]
  | drop role destination =>
    simp only [Usi.destination] at hne
    simp only [Board.after]
    rw [if_neg hne, hs]

/-- A piece that neither moves nor is captured. -/
theorem after_kept (hne : s ≠ usi.destination)
    (horigin : ∀ origin destination promote, usi = .move origin destination promote → s ≠ origin) :
    board.after color usi s = board s := by
  cases usi with
  | move origin destination promote =>
    simp only [Usi.destination] at hne
    simp only [Board.after]
    rw [if_neg hne, if_neg (horigin _ _ _ rfl)]
  | drop role destination =>
    simp only [Usi.destination] at hne
    simp only [Board.after]
    rw [if_neg hne]

theorem Shows.not_occupied (h : Shows o board) (hs : board s = none) : ¬o.Occupied s := by
  intro hocc
  obtain ⟨p, hp, rfl⟩ := mem_map.mp hocc
  rw [(h p.square (o.pieces_inBounds p hp) p.role).mpr hp] at hs
  cases hs

/-- A candidate that moves a piece moves a piece of its role. -/
theorem piece_of_candidate (hc : c ∈ o.candidatesFor false) {origin destination : Square} {promote : Bool}
    (husi : c.usi = .move origin destination promote) : ⟨origin, c.role⟩ ∈ o.pieces := by
  rcases mem_candidatesFor.mp hc with ⟨p, hp, s, hs, hc⟩ | hc
  · obtain ⟨_, rfl, -, -⟩ := (mem_append ((mem_destinations hp).mp hs).1).mp hc
    cases husi
    exact hp
  · obtain ⟨role, -, -, s, -, rfl⟩ := mem_drops.mp hc
    cases husi

theorem legal_free {hand : Role → ℕ} (h : Legal board color hand usi) (role : Role) :
    board usi.destination ≠ some (color, role) := by
  cases usi with
  | move origin destination promote =>
    obtain ⟨r, -, hmove⟩ := h
    exact hmove.free role
  | drop r destination =>
    intro he
    have hempty : board destination = none := h.empty
    rw [show board destination = some (color, role) from he] at hempty
    cases hempty

end Kept

/-- **No answer is dropped.** When the only own king is attacked on a board with the own pieces, every legal candidate after
which the king is not attacked is kept. -/
theorem legal_responds {o : Observation} {king : Piece} (hkings : o.kings = [king]) {board : Board} (hshow : Shows o board)
    (hcheck : Attacked board o.color king.square) {candidates : List Candidate}
    (hgenerated : ∀ c ∈ candidates, c ∈ o.candidatesFor false) {c : Candidate} (hc : c ∈ candidates)
    (hlegal : Legal board o.color o.hand c.usi) (hsafe : KingSafe (board.after o.color c.usi) o.color) :
    c ∈ o.checkResponses candidates := by
  have hmem : king ∈ o.kings := by rw [hkings]; exact mem_singleton_self king
  obtain ⟨hking, hrole⟩ := mem_filter.mp hmem
  have hin := o.pieces_inBounds king hking
  have hboard : board king.square = some (o.color, .K) :=
    (hshow _ hin .K).mpr (by rw [← of_decide_eq_true hrole]; exact hking)
  unfold Observation.checkResponses
  rw [hkings]
  refine mem_filter.mpr ⟨hc, ?_⟩
  by_cases hK : c.role = .K
  · unfold Observation.responds
    exact if_pos hK
  · obtain ⟨s, role, hs, hpiece, hreaches, hclear⟩ := hcheck
    have hother := o.color.other_ne
    -- neither the king nor the piece that gives check leaves its square
    have hstay : ∀ origin destination promote, c.usi = .move origin destination promote → king.square ≠ origin ∧ s ≠ origin := by
      intro origin destination promote husi
      have hown := piece_of_candidate (hgenerated c hc) husi
      have horigin := (hshow origin (o.pieces_inBounds _ hown) c.role).mpr hown
      refine ⟨?_, ?_⟩
      · rintro rfl
        rw [hboard] at horigin
        exact hK (congrArg Prod.snd (Option.some.inj horigin)).symm
      · rintro rfl
        rw [hpiece] at horigin
        exact hother (congrArg Prod.fst (Option.some.inj horigin))
    by_contra hnot
    have hkept : king.square ≠ c.usi.destination := fun heq => legal_free hlegal .K (heq ▸ hboard)
    have hmissed : s ≠ c.usi.destination := by
      intro heq
      refine hnot ?_
      by_cases hN : role = .N
      · rw [hN] at hreaches
        obtain ⟨hx, hy⟩ := hreaches
        refine responds_knight (by rw [← heq]; omega) ?_ ?_
        · rw [← heq]
          cases hcolor : o.color <;> simp only [hcolor, Color.other, forward] at hy ⊢ <;> omega
        · cases husi : c.usi with
          | move origin destination promote => rfl
          | drop r destination =>
            rw [husi] at hlegal heq
            have hempty : board destination = none := hlegal.empty
            rw [← show s = destination from heq, hpiece] at hempty
            cases hempty
      · obtain ⟨d, hd, n, hn, hline⟩ := exists_line hN hreaches
        have hfree := hclear hN
        rw [hline, clear_line hd hn] at hfree
        exact responds_line hd hn (heq ▸ hline) fun j hj hjn => hshow.not_occupied (hfree j hj hjn)
    refine hsafe king.square hin ?_ ⟨s, role, hs, ?_, hreaches, fun hN => ?_⟩
    · rw [after_kept hkept fun _ _ _ husi => (hstay _ _ _ husi).1]
      exact hboard
    · rw [after_kept hmissed fun _ _ _ husi => (hstay _ _ _ husi).2]
      exact hpiece
    · obtain ⟨d, hd, n, hn, hline⟩ := exists_line hN hreaches
      have hfree := hclear hN
      rw [hline, clear_line hd hn] at hfree ⊢
      intro j hj hjn
      refine after_none (hfree j hj hjn) fun heq => hnot ?_
      exact responds_line hd hj heq.symm fun i hi hij => hshow.not_occupied (hfree i hi (hij.trans hjn))

/-- A king in check by the piece before it, and a gold beside the king. -/
def guarded : Observation where
  color := .b
  turn := .b
  moveNumber := 1
  pieces := [⟨⟨5, 9⟩, .K⟩, ⟨⟨4, 9⟩, .G⟩]
  hand := fun _ => 0
  inCheck := some true
  opponentInCheck := none
  attemptBudget := none
  knownEnemies := [⟨⟨5, 8⟩, 0⟩]
  moveNumber_pos := contradictory.moveNumber_pos
  pieces_length := by simp
  pieces_inBounds := by decide
  pieces_nodup := by simp
  hand_le := contradictory.hand_le
  attemptBudget_le := contradictory.attemptBudget_le
  knownEnemies_length := by simp [knownEnemyLimit]
  knownEnemies_inBounds := by decide
  knownEnemies_nodup := by simp
  knownEnemies_age := by simp

theorem guarded_safe : KingSafe (guarded.seenBoard.after .b (.move ⟨4, 9⟩ ⟨5, 8⟩ false)) .b := by
  rintro s - - ⟨t, role, -, hpiece, -, -⟩
  simp only [Board.after, Bool.false_eq_true, if_false] at hpiece
  split_ifs at hpiece with hdest horigin
  · rw [@seenBoard_own guarded ⟨⟨4, 9⟩, .G⟩ (by decide)] at hpiece
    cases hpiece
  · by_cases hocc : guarded.Occupied t
    · obtain ⟨p, hp, rfl⟩ := mem_map.mp hocc
      rw [seenBoard_own hp] at hpiece
      cases hpiece
    · rw [seenBoard_of_not_occupied hocc, if_neg] at hpiece
      · cases hpiece
      · intro hknown
        exact hdest (mem_singleton.mp hknown)

theorem legal_responds_guarded :
    (⟨.move ⟨4, 9⟩ ⟨5, 8⟩ false, .G⟩ : Candidate) ∈ guarded.checkResponses (guarded.candidatesFor false) := by
  have hc : (⟨.move ⟨4, 9⟩ ⟨5, 8⟩ false, .G⟩ : Candidate) ∈ guarded.candidatesFor false := by decide
  have hagrees : Agrees guarded guarded.seenBoard := seenBoard_agrees fun s hs => by
    rw [mem_singleton.mp hs]
    decide
  refine legal_responds (show guarded.kings = [⟨⟨5, 9⟩, .K⟩] from rfl) hagrees.own ?_ (fun _ h => h) hc ?_ guarded_safe
  · refine ⟨⟨5, 8⟩, .G, by decide, by decide, ?_, fun _ k hk hlt => ?_⟩
    · exact .inl ⟨by decide, by decide⟩
    · exact absurd hlt (by simp; omega)
  · refine ⟨.G, by decide, by decide, by decide, ?_, .inl ⟨by decide, by decide⟩, fun _ k hk hlt => ?_, nofun, ?_⟩
    · exact seenBoard_free (by decide)
    · exact absurd hlt (by simp; omega)
    · rintro (⟨h | h, -⟩ | ⟨h, -⟩) <;> cases h

end Docich.Tsuitate
