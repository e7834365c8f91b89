import Docich.Shogi.Sfen

/-!
# The pieces of a position

How many pieces of a role there are, on the board and in the hands (`Position.count`). The applier judges no legality,
and yet no move loses a piece: what is captured goes to a hand (`play_count`). A piece that is moved onto its own square
captures itself: it stays on the board and comes to the hand as well.
-/

namespace Docich.Shogi

open Finset Option Function

/-! ## Counting -/

def weight (role : Role) (cell : Option Piece) : ℕ := if cell.any (fun p => p.role = role) then 1 else 0

def onBoard (t : Board) (role : Role) : ℕ := ∑ s, weight role (t s)

def held (hands : Hands) (role : Role) : ℕ := hands .sente role + hands .gote role

def Position.count (p : Position) (role : Role) : ℕ := onBoard p.squares role + held p.hands role

def standard : Role → ℕ
  | .P => 18
  | .L | .N | .S | .G => 4
  | .B | .R | .K => 2

@[simp] theorem weight_none (role : Role) : weight role none = 0 := rfl

@[simp] theorem weight_some (role : Role) (p : Piece) : weight role (some p) = if p.role = role then 1 else 0 := by
  simp [weight]

theorem onBoard_update (t : Board) (s : Square) (cell : Option Piece) (role : Role) :
    onBoard (update t s cell) role + weight role (t s) = onBoard t role + weight role cell := by
  have hrest : ∑ s' ∈ univ.erase s, weight role (update t s cell s') = ∑ s' ∈ univ.erase s, weight role (t s') :=
    sum_congr rfl fun s' hs' => by rw [update_of_ne (ne_of_mem_erase hs')]
  have hnew := add_sum_erase univ (fun s' => weight role (update t s cell s')) (mem_univ s)
  have hold := add_sum_erase univ (fun s' => weight role (t s')) (mem_univ s)
  rw [update_self, hrest] at hnew
  unfold onBoard
  omega

theorem held_add (hands : Hands) (side : Side) (r role : Role) :
    held (hands.add side r) role = held hands role + if r = role then 1 else 0 := by
  cases side <;> by_cases h : r = role <;> simp [held, Hands.add, h, eq_comm] <;> omega

theorem held_capture (hands : Hands) (side : Side) (captured : Option Piece) (role : Role) :
    held (hands.capture side captured) role = held hands role + weight role captured := by
  cases captured with
  | none => rfl
  | some p => rw [Hands.capture, held_add, weight_some]

variable {side : Side} {facts : Facts} {p p' : Position}
variable {hands : Hands} {m : Usi} {role : Role} {usi : Text} {moves : List (Text × Side)}

theorem held_take {r : Role} (h : hands side r ≠ 0) (role : Role) :
    held (hands.take side r) role + (if r = role then 1 else 0) = held hands role := by
  cases side <;> by_cases hr : r = role <;> simp [held, Hands.take, hr, eq_comm] <;> subst hr <;> omega

/-! ## Moves -/

/-- The move leaves the piece where it stands. -/
def Usi.stays : Usi → Bool
  | .move origin target _ => origin = target
  | .drop _ _ => false

/-- What an accepted move does. -/
theorem play_spec (h : play p side m = .ok (p', facts)) :
    (∃ role target, m = .drop role target ∧ p.squares target = none ∧ p.hands side role ≠ 0 ∧
      p' = ⟨update p.squares target (some ⟨false, role, side⟩), p.hands.take side role⟩ ∧ facts.captured = none ∧
      facts.piece = ⟨false, role, side⟩) ∨
    ∃ origin target promote piece, m = .move origin target promote ∧ p.squares origin = some piece ∧
      facts.piece.role = piece.role ∧ facts.captured = p.squares target ∧
      p' = ⟨update (update p.squares origin none) target (some facts.piece),
        p.hands.capture side facts.captured⟩ := by
  cases m with
  | drop role target =>
    simp only [play] at h
    split at h
    · cases h
    · next hempty =>
      split at h
      · cases h
      · next hheld =>
        cases h
        exact .inl ⟨role, target, rfl, not_not.mp hempty, hheld, rfl, rfl, rfl⟩
  | move origin target promote =>
    simp only [play] at h
    split at h
    · cases h
    · next piece hpiece =>
      split at h
      · cases h
      · cases h
        refine .inr ⟨origin, target, promote, piece, rfl, hpiece, ?_, rfl, rfl⟩
        cases promote <;> rfl

/-- No move loses a piece; a move onto the own square makes one more. -/
theorem play_count (h : play p side m = .ok (p', facts)) (role : Role) :
    p'.count role = p.count role + if m.stays ∧ facts.piece.role = role then 1 else 0 := by
  rcases play_spec h with ⟨r, target, rfl, hempty, hheld, rfl, -, -⟩ | ⟨origin, target, promote, piece, rfl, ho, hr, hc, rfl⟩
  · have hb := onBoard_update p.squares target (some ⟨false, r, side⟩) role
    have hh := held_take hheld role
    simp only [hempty, weight_none, weight_some] at hb
    simp only [Position.count, Usi.stays, Bool.false_eq_true, false_and, if_false]
    omega
  · have hb := onBoard_update p.squares origin none role
    have hb' := onBoard_update (update p.squares origin none) target (some facts.piece) role
    have hh := held_capture p.hands side facts.captured role
    simp only [ho, weight_none, weight_some, hr] at hb hb'
    simp only [Position.count, Usi.stays, decide_eq_true_eq, hr, hc] at hh ⊢
    by_cases hs : origin = target
    · subst hs
      simp only [update_self, weight_none, ho, weight_some, true_and] at hb' hh ⊢
      omega
    · rw [update_of_ne (Ne.symm hs)] at hb'
      simp only [hs, false_and, if_false]
      omega

/-- Kings are only lost from the board. -/
theorem play_kings (h : play p side m = .ok (p', facts))
    (hm : ∀ target, m ≠ .drop .K target) : onBoard p'.squares .K ≤ onBoard p.squares .K := by
  rcases play_spec h with ⟨r, target, rfl, hempty, -, rfl, -, -⟩ | ⟨origin, target, promote, piece, rfl, ho, hr, -, rfl⟩
  · have hb := onBoard_update p.squares target (some ⟨false, r, side⟩) .K
    have hne : r ≠ .K := fun e => hm target (by rw [e])
    simp only [hempty, weight_none, weight_some, hne, if_false, Nat.add_zero] at hb
    exact hb.le
  · have hb := onBoard_update p.squares origin none .K
    have hb' := onBoard_update (update p.squares origin none) target (some facts.piece) .K
    simp only [ho, weight_none, weight_some, hr] at hb hb'
    calc onBoard (update (update p.squares origin none) target (some facts.piece)) .K
      _ ≤ onBoard (update p.squares origin none) .K + if piece.role = .K then 1 else 0 := by omega
      _ = onBoard p.squares .K := by omega

/-- A hand gets a king only where one is captured. -/
theorem play_held_king (h : play p side m = .ok (p', facts)) :
    held p'.hands .K ≤ held p.hands .K + weight .K facts.captured := by
  rcases play_spec h with ⟨r, target, -, -, hheld, rfl, -, -⟩ | ⟨origin, target, promote, piece, -, -, -, -, rfl⟩
  · have := held_take hheld .K
    show held (p.hands.take side r) .K ≤ _
    omega
  · exact (held_capture p.hands side facts.captured .K).le

theorem dropRole_spec {c : Char} (h : dropRole c = some role) : role ≠ .K := by
  have := List.mem_of_find?_eq_some h
  rintro rfl
  simp at this

theorem readUsi_drop {target : Square} (h : readUsi usi = some (.drop role target)) : role ≠ .K := by
  unfold readUsi at h
  split at h
  · next r _ _ =>
    simp only [bind_eq_bind, bind_eq_some_iff] at h
    obtain ⟨r', hr, s, -, hm⟩ := h
    cases hm
    exact dropRole_spec hr
  all_goals
    simp only [bind_eq_bind, bind_eq_some_iff, reduceCtorEq, Option.pure_def, some.injEq, and_false,
      exists_false] at h

theorem applyMove_spec (h : applyMove p usi side = .ok (p', facts)) :
    ∃ m, readUsi usi = some m ∧ play p side m = .ok (p', facts) ∧ ∀ target, m ≠ .drop .K target := by
  unfold applyMove at h
  split at h
  · cases h
  · next m hm => exact ⟨m, hm, h, fun target e => readUsi_drop (e ▸ hm) rfl⟩

/-! ## Positions that are reached -/

def startPosition : Position :=
  match parseSfen standardStart with
  | .ok (squares, _, hands) => ⟨squares, hands⟩
  | .error _ => ⟨emptyBoard, emptyHands⟩

def backRank (side : Side) : List (Option Piece) :=
  [.L, .N, .S, .G, .K, .G, .S, .N, .L].map fun role => some ⟨false, role, side⟩

def pawns (side : Side) : List (Option Piece) := List.replicate 9 (some ⟨false, .P, side⟩)

def bare (slots : ℕ) : List (Option Piece) := List.replicate slots none

def startRows : List (List (Option Piece)) :=
  [backRank .gote, bare 1 ++ [some ⟨false, .R, .gote⟩] ++ bare 5 ++ [some ⟨false, .B, .gote⟩] ++ bare 1, pawns .gote,
    bare 9, bare 9, bare 9,
    pawns .sente, bare 1 ++ [some ⟨false, .B, .sente⟩] ++ bare 5 ++ [some ⟨false, .R, .sente⟩] ++ bare 1, backRank .sente]

def startBoard : Board := fun s => (startRows.getD s.row []).getD s.slot none

theorem startPosition_eq : startPosition = ⟨startBoard, emptyHands⟩ := by
  have htext : standardStart = toSfen startBoard emptyHands .b 1 := by decide
  have hread := parseSfen_toSfen startBoard emptyHands .b 1
  rw [← htext, if_pos (by decide)] at hread
  rw [startPosition, hread]
  simp only [Position.mk.injEq, true_and]
  funext side role
  cases role <;> rfl

-- the start is used by its rows only: unfolding it would parse the text again
attribute [irreducible] startPosition

theorem count_start (role : Role) : startPosition.count role = standard role := by
  rw [startPosition_eq]
  cases role <;> decide

theorem held_start (role : Role) : held startPosition.hands role = 0 := by
  rw [startPosition_eq]
  rfl

/-- A position after accepted moves, none of which captured a king. -/
inductive Played : List (Text × Side) → Position → Prop
  | start : Played [] startPosition
  | move {moves : List (Text × Side)} {p p' : Position} {usi : Text} {side : Side} {facts : Facts} :
      Played moves p → applyMove p usi side = .ok (p', facts) → weight .K facts.captured = 0 →
      Played (moves ++ [(usi, side)]) p'

/-- A text that moves a piece onto its own square. -/
def Stays (usi : Text) : Prop := ∃ m, readUsi usi = some m ∧ m.stays = true

theorem Played.held_king (h : Played moves p) : held p.hands .K = 0 := by
  induction h with
  | start => exact held_start .K
  | move _ hm hk ih =>
    obtain ⟨m, -, hplay, -⟩ := applyMove_spec hm
    have := play_held_king hplay
    omega

/-- Where every piece is moved elsewhere, there are always the standard pieces. -/
theorem Played.count (h : Played moves p) (hs : ∀ m ∈ moves, ¬ Stays m.1)
    (role : Role) : p.count role = standard role := by
  induction h with
  | start => exact count_start role
  | @move moves p p' usi side facts _ hm _ ih =>
    obtain ⟨m, hu, hplay, -⟩ := applyMove_spec hm
    have hstays : ¬ m.stays = true := fun e => hs (usi, side) (List.mem_append_right _ (List.mem_singleton.mpr rfl)) ⟨m, hu, e⟩
    rw [play_count hplay, if_neg fun e => hstays e.1, ih fun m hm => hs m (List.mem_append_left _ hm)]
    rfl

theorem standard_le (role : Role) : standard role ≤ 18 := by
  cases role <;> decide

/-- The sum over the rows of a board. -/
theorem sum_cells (t : Board) (f : Option Piece → ℕ) :
    ((List.finRange 9).map fun row => ((t.cells row).map f).sum).sum = ∑ s, f (t s) := by
  have hsum : ∑ s, f (t s) = ∑ x : Fin 9 × Fin 9, f (t ⟨x.1, x.2⟩) :=
    Fintype.sum_equiv Square.equivProd _ _ fun _ => rfl
  rw [hsum, Fintype.sum_prod_type, Fin.sum_univ_def]
  simp only [Board.cells, List.map_map, Fin.sum_univ_def, comp_def]

theorem promotions_sum (cells : List (Option Piece)) :
    promotions cells = (cells.map fun cell => if cell.any Piece.promoted then 1 else 0).sum := by
  induction cells with
  | nil => rfl
  | cons cell cells ih =>
    rw [promotions, List.countP_cons, List.map_cons, List.sum_cons, ← ih, Nat.add_comm]
    rfl

theorem promotedPieces_le (t : Board) : promotedPieces t ≤ (allRoles.map (onBoard t)).sum := by
  simp only [promotedPieces, promotions_sum]
  rw [sum_cells t fun cell => if cell.any Piece.promoted then 1 else 0]
  calc ∑ s, (if (t s).any Piece.promoted then 1 else 0) ≤ ∑ s, (allRoles.map fun role => weight role (t s)).sum := by
        refine sum_le_sum fun s _ => ?_
        cases t s with
        | none => simp
        | some p =>
          have hone : (allRoles.map fun role => weight role (some p)).sum = 1 := by
            simp only [weight_some]
            cases p.role <;> decide
          split_ifs <;> omega
    _ = (allRoles.map (onBoard t)).sum := by
        simp only [allRoles, List.map_cons, List.map_nil, List.sum_cons, List.sum_nil, sum_add_distrib, sum_const_zero, onBoard]

theorem Position.short (h : ∀ role, p.count role = standard role) (turn : Turn) :
    (toSfen p.squares p.hands turn 1).length ≤ maxSfen := by
  apply length_toSfen
  · refine (promotedPieces_le p.squares).trans ?_
    calc (allRoles.map (onBoard p.squares)).sum ≤ (allRoles.map standard).sum :=
          List.Forall₂.sum_le_sum (List.forall₂_map_left_iff.mpr (List.forall₂_map_right_iff.mpr
            (List.forall₂_same.mpr fun role _ => (h role) ▸ Nat.le_add_right _ _)))
      _ = 40 := by decide
  · intro side role _
    have hc := h role
    have hs := standard_le role
    unfold Position.count held at hc
    cases side <;> omega

theorem written_of_held (h : held hands .K = 0) : hands.written = hands := by
  funext side role
  unfold held at h
  unfold Hands.written
  split
  · next hr =>
    subst hr
    cases side <;> omega
  · rfl

/-- **What SFEN writes of a position that was played is read again, unless it is longer than SFEN may be**; where no piece
was moved onto its own square it never is. -/
theorem sfen_read_again {moves : List (Text × Side)} {p : Position} (h : Played moves p) (turn : Turn) :
    (parseSfen (toSfen p.squares p.hands turn 1) =
      if (toSfen p.squares p.hands turn 1).length ≤ maxSfen then .ok (p.squares, turn, p.hands) else .error "invalid sfen") ∧
    (∀ squares turn' hands, parseSfen (toSfen p.squares p.hands turn 1) = .ok (squares, turn', hands) →
      toSfen squares hands turn' 1 = toSfen p.squares p.hands turn 1) ∧
    ((∀ m ∈ moves, ¬ Stays m.1) → (toSfen p.squares p.hands turn 1).length ≤ maxSfen) := by
  have hread := parseSfen_toSfen p.squares p.hands turn 1
  rw [written_of_held h.held_king] at hread
  refine ⟨hread, ?_, fun hs => Position.short (h.count hs) turn⟩
  intro squares turn' hands hp
  rw [hread] at hp
  split at hp
  · cases hp
    rfl
  · cases hp

/-- The moves one after another, where none captures a king. -/
def playAll (p : Position) : List (Text × Side) → Option Position
  | [] => some p
  | (usi, side) :: moves =>
    match applyMove p usi side with
    | .ok (p', facts) => if weight .K facts.captured = 0 then playAll p' moves else none
    | .error _ => none

theorem played_all {done : List (Text × Side)} (hp : Played done p) (h : playAll p moves = some p') :
    Played (done ++ moves) p' := by
  induction moves generalizing done p with
  | nil =>
    cases h
    rwa [List.append_nil]
  | cons m moves ih =>
    simp only [playAll] at h
    split at h
    · next p₁ facts hm =>
      split at h
      · next hk =>
        have := ih (hp.move hm hk) h
        rwa [List.append_assoc] at this
      · cases h
    · cases h

theorem sfen_read_again_pushed : ∃ p, Played [("7g7f".toList, .sente)] p ∧
    parseSfen (toSfen p.squares p.hands .w 1) = .ok (p.squares, .w, p.hands) := by
  have hplay : (playAll startPosition [("7g7f".toList, .sente)]).isSome = true := by
    rw [startPosition_eq]
    decide
  obtain ⟨p, hp⟩ := isSome_iff_exists.mp hplay
  have hplayed : Played [("7g7f".toList, .sente)] p := played_all .start hp
  have hmoved : ∀ m ∈ [("7g7f".toList, Side.sente)], ¬ Stays m.1 := by
    intro m hm
    obtain rfl := List.mem_singleton.mp hm
    rintro ⟨u, hu, hs⟩
    cases hu
    exact absurd hs (by decide)
  obtain ⟨hread, -, hshort⟩ := sfen_read_again hplayed .w
  rw [if_pos (hshort hmoved)] at hread
  exact ⟨p, hplayed, hread⟩

def Square.text (s : Square) : Text := [Char.ofNat (57 - s.slot), Char.ofNat (97 + s.row)]

def allSquares : List Square := (List.finRange 9).flatMap fun row => (List.finRange 9).map fun slot => ⟨row, slot⟩

/-- A pawn that captures itself is dropped on every empty square and promoted there, which gives it back; every other
piece captures itself as well, and is promoted where it can be. -/
def flood : List (Text × Side) :=
  [("7g7g".toList, .sente)] ++
  (allSquares.filter fun s => (startPosition.squares s).isNone).flatMap (fun s =>
    [("P*".toList ++ s.text, .sente), (s.text ++ s.text ++ ['+'], .sente)]) ++
  (allSquares.filter fun s => (startPosition.squares s).any fun p => p.role.promotes).map (fun s =>
    (s.text ++ s.text ++ ['+'], .sente)) ++
  ["9a9a", "8a8a", "7a7a", "6a6a", "8b8b", "2b2b", "5c5c"].flatMap fun usi => List.replicate 10 (usi.toList, .gote)

/-- Pieces that captured themselves make a position whose text is refused. -/
theorem sfen_refused : ∃ moves p, Played moves p ∧ parseSfen (toSfen p.squares p.hands .b 1) = .error "invalid sfen" := by
  have hflood : (playAll startPosition flood).any
      (fun p => decide (maxSfen < (toSfen p.squares p.hands .b 1).length)) = true := by
    decide +kernel
  obtain ⟨p, hp, hlen⟩ := (any_eq_true _ _).mp hflood
  have hplayed := played_all .start hp
  refine ⟨flood, p, hplayed, ?_⟩
  rw [parseSfen_toSfen, if_neg (Nat.not_le_of_lt (of_decide_eq_true hlen))]

end Docich.Shogi
