import Docich.Shogi.Board

/-!
# What SFEN writes is read again

`parse_sfen` on the parts that `to_sfen` writes (`readParts_written`): the board is read square by square (`upTo`), the
hands role by role. A king in hand is not written. The whole text is read again unless it is too long
(`parseSfen_toSfen`).
-/

namespace Docich.Shogi

open List Function Wire

/-! ## Letters -/

theorem readRole_code (role : Role) (side : Side) : readRole allRoles (role.code side) = some (role, side) := by
  cases role <;> cases side <;> rfl

variable {role : Role} {e n : ℕ} {c : Char} {cells : List (Option Piece)}
    {keys : List (Side × Role)} {hands : Hands}

theorem readRole_held (h : role ∈ handRoles) (side : Side) :
    readRole handRoles (role.code side) = some (role, side) := by
  revert h
  cases role <;> cases side <;> decide

theorem code_ne (role : Role) (side : Side) : Wire.isNumeral (role.code side) = false ∧ role.code side ≠ '+' := by
  cases role <;> cases side <;> decide

theorem emptyText_digit (h0 : e ≠ 0) (h9 : e ≤ 9) :
    ∃ c, emptyText e = [c] ∧ Wire.isNumeral c = true ∧ Wire.valueOf [c] = e := by
  have he : e < 10 := by omega
  refine ⟨Nat.digitChar e, ?_, isNumeral_digitChar e he, ?_⟩
  · rw [emptyText, if_neg h0, digitsOf_small he]
  · rw [← digitsOf_small he, valueOf_digitsOf]

/-! ## One row -/

/-- The board up to a square, in the order of SFEN; the rest is empty. -/
def upTo (t : Board) (row slot : ℕ) : Board :=
  fun s => if s.row < row ∨ (s.row = row ∧ s.slot < slot) then t s else none

theorem upTo_none {t : Board} {row slot : Fin 9} (h : t ⟨row, slot⟩ = none) : upTo t row (slot + 1) = upTo t row slot := by
  funext s
  by_cases hs : s = ⟨row, slot⟩
  · subst hs
    simp [upTo, h]
  · have hne : ¬ (s.row = row ∧ (s.slot : ℕ) = slot) := fun e => hs (by
      cases s
      simp only [Square.mk.injEq]
      exact ⟨e.1, Fin.ext e.2⟩)
    simp only [upTo, Fin.val_inj]
    have : (s.row < row ∨ s.row = row ∧ (s.slot : ℕ) < slot + 1) ↔ (s.row < row ∨ s.row = row ∧ (s.slot : ℕ) < slot) := by
      omega
    simp only [Fin.val_fin_lt, this]

theorem upTo_some {t : Board} {row slot : Fin 9} {p : Piece} (h : t ⟨row, slot⟩ = some p) :
    update (upTo t row slot) ⟨row, slot⟩ (some p) = upTo t row (slot + 1) := by
  funext s
  by_cases hs : s = ⟨row, slot⟩
  · subst hs
    simp [upTo, h]
  · have hne : ¬ (s.row = row ∧ (s.slot : ℕ) = slot) := fun e => hs (by
      cases s
      simp only [Square.mk.injEq]
      exact ⟨e.1, Fin.ext e.2⟩)
    rw [update_of_ne hs]
    simp only [upTo, Fin.val_inj]
    have : (s.row < row ∨ s.row = row ∧ (s.slot : ℕ) < slot + 1) ↔ (s.row < row ∨ s.row = row ∧ (s.slot : ℕ) < slot) := by
      omega
    simp only [Fin.val_fin_lt, this]

variable (t : Board)

include t

theorem upTo_row (row : ℕ) : upTo t row 9 = upTo t (row + 1) 0 := by
  funext s
  have : ((s.row : ℕ) < row ∨ (s.row : ℕ) = row ∧ (s.slot : ℕ) < 9) ↔ ((s.row : ℕ) < row + 1 ∨ (s.row : ℕ) = row + 1 ∧ (s.slot : ℕ) < 0) := by
    omega
  simp only [upTo, this]

theorem upTo_all : upTo t 9 0 = t := by
  funext s
  simp [upTo]

/-- The squares of a row from a slot on. -/
theorem cells_drop (row slot : Fin 9) :
    (t.cells row).drop slot = t ⟨row, slot⟩ :: (t.cells row).drop (slot + 1) := by
  have h : (slot : ℕ) < (t.cells row).length := by simp [Board.cells]
  rw [drop_eq_getElem_cons h]
  simp [Board.cells]

omit t

theorem readRow_numeral (row : Fin 9) (slot : ℕ) (hc : Wire.isNumeral c = true) (rest : Text) (squares : Board) :
    readRow row slot (c :: rest) squares = readRow row (slot + Wire.valueOf [c]) rest squares := by
  rw [readRow.eq_def]
  simp only [hc, if_true]

/-- The count of the empty squares is read as that many slots. -/
theorem readRow_empty (row : Fin 9) {slot : ℕ} (he : e ≤ 9) (rest : Text) (squares : Board) :
    readRow row slot (emptyText e ++ rest) squares = readRow row (slot + e) rest squares := by
  by_cases h0 : e = 0
  · subst h0
    rfl
  · obtain ⟨c, hc, hn, hv⟩ := emptyText_digit h0 he
    rw [hc, singleton_append, readRow_numeral row slot hn, hv]

theorem readRow_piece (row slot : Fin 9) (p : Piece) (rest : Text) (squares : Board) :
    readRow row slot (p.text ++ rest) squares =
      readRow row (slot + 1) rest (update squares ⟨row, slot⟩ (some p)) := by
  obtain ⟨promoted, role, side⟩ := p
  obtain ⟨hn, hne⟩ := code_ne role side
  cases promoted
  · simp only [Piece.text, Bool.false_eq_true, if_false, nil_append, singleton_append]
    conv_lhs => unfold readRow
    simp only [hn, Bool.false_eq_true, if_false, if_neg hne, readRole_code, slot.isLt, dif_pos]
  · simp only [Piece.text, if_true, cons_append, nil_append]
    have hplus : Wire.isNumeral '+' = false := by decide
    conv_lhs => unfold readRow
    simp only [hplus, Bool.false_eq_true, if_false, if_true, readRole_code, slot.isLt, dif_pos]

include t

/-- The row is read square by square, where the empty ones before the slot are still to be counted. -/
theorem readRow_rowText (row : Fin 9) (n slot e : ℕ) (hn : n + slot = 9) (he : e ≤ slot) :
    readRow row (slot - e) (rowText e ((t.cells row).drop slot)) (upTo t row slot) = .ok (upTo t row 9) := by
  induction n generalizing slot e with
  | zero =>
    obtain rfl : slot = 9 := by omega
    have hnil : (t.cells row).drop 9 = [] := by simp [Board.cells]
    rw [hnil, rowText, ← append_nil (emptyText e), readRow_empty row he, readRow, if_neg (by omega)]
  | succ n ih =>
    have hslot : slot < 9 := by omega
    obtain ⟨slot, rfl⟩ : ∃ k : Fin 9, (k : ℕ) = slot := ⟨⟨slot, hslot⟩, rfl⟩
    rw [cells_drop]
    cases hp : t ⟨row, slot⟩ with
    | none =>
      have := ih (slot + 1) (e + 1) (by omega) (by omega)
      rwa [upTo_none hp, Nat.add_sub_add_right] at this
    | some p =>
      have := ih (slot + 1) 0 (by omega) (by omega)
      rw [rowText, append_assoc, readRow_empty row (by omega), Nat.sub_add_cancel he, readRow_piece, upTo_some hp]
      exact this

/-! ## The board -/

theorem readRows_rows (n row : ℕ) (hn : n + row = 9) :
    readRows (((List.finRange 9).map fun r => (r, rowText 0 (t.cells r))).drop row) (upTo t row 0) = .ok t := by
  induction n generalizing row with
  | zero =>
    obtain rfl : row = 9 := by omega
    have hnil : ((List.finRange 9).map fun r => (r, rowText 0 (t.cells r))).drop 9 = [] := by simp
    rw [hnil, readRows, upTo_all]
  | succ n ih =>
    have hrow : row < ((List.finRange 9).map fun r => (r, rowText 0 (t.cells r))).length := by
      rw [length_map, length_finRange]
      omega
    rw [drop_eq_getElem_cons hrow]
    obtain ⟨r, rfl⟩ : ∃ k : Fin 9, (k : ℕ) = row := ⟨⟨row, by omega⟩, rfl⟩
    have hread := readRow_rowText t r 9 0 0 rfl le_rfl
    rw [drop_zero, upTo_row] at hread
    simp only [getElem_map, getElem_finRange, Fin.cast_mk, Fin.eta, readRows]
    rw [hread]
    exact ih (r + 1) (by omega)

omit t

theorem mem_emptyText (h : c ∈ emptyText e) : Wire.isNumeral c = true := by
  unfold emptyText at h
  split at h
  · cases h
  · exact isNumeral_digitsOf e c h

/-- The characters of a row: counts, signs of promotion and codes. -/
theorem mem_rowText (h : c ∈ rowText e cells) :
    Wire.isNumeral c = true ∨ c = '+' ∨ ∃ role side, c = Role.code role side := by
  induction cells generalizing e with
  | nil => exact .inl (mem_emptyText h)
  | cons cell cells ih =>
    cases cell with
    | none => exact ih h
    | some p =>
      rcases mem_append.mp h with h | h
      · rcases mem_append.mp h with h | h
        · exact .inl (mem_emptyText h)
        · rcases mem_append.mp h with h | h
          · cases hp : p.promoted with
            | false => simp [hp] at h
            | true => exact .inr (.inl (by simpa [hp] using h))
          · exact .inr (.inr ⟨p.role, p.side, mem_singleton.mp h⟩)
      · exact ih h

theorem code_isSfenChar (role : Role) (side : Side) : isSfenChar (role.code side) = true ∧
    role.code side ≠ '/' ∧ role.code side ≠ ' ' := by
  cases role <;> cases side <;> decide

theorem numeral_isSfenChar (h : Wire.isNumeral c = true) : isSfenChar c = true ∧ c ≠ '/' ∧ c ≠ ' ' := by
  refine ⟨?_, ?_, ?_⟩
  · have hd : c.isDigit = true := by
      simpa [Wire.isNumeral, Char.isDigit, Char.le_def] using h
    simp [isSfenChar, Char.isAlphanum, hd]
  · rintro rfl
    exact absurd h (by decide)
  · rintro rfl
    exact absurd h (by decide)

theorem rowText_chars (h : c ∈ rowText e cells) :
    isSfenChar c = true ∧ c ≠ '/' ∧ c ≠ ' ' := by
  rcases mem_rowText h with hc | rfl | ⟨role, side, rfl⟩
  · exact numeral_isSfenChar hc
  · decide
  · exact code_isSfenChar role side

include t in
theorem splitOn_boardText :
    (boardText t).splitOn '/' = (List.finRange 9).map fun row => rowText 0 (t.cells row) := by
  apply splitOn_intercalate
  · intro l hl hc
    obtain ⟨row, -, rfl⟩ := mem_map.mp hl
    exact (rowText_chars hc).2.1 rfl
  · simp [List.finRange]

/-! ## The hands -/

def readNumber (count : ℕ) (digits : Text) : ℕ := digits.foldl (fun n c => n * 10 + Wire.valueOf [c]) count

theorem readNumber_digitsOf (n : ℕ) : readNumber 0 (Wire.digitsOf n) = n := by
  have hfold : ∀ (digits : Text) (count : ℕ), readNumber count digits = digits.foldl (fun n c => 10 * n + (c.toNat - 48)) count := by
    intro digits
    induction digits with
    | nil => exact fun _ => rfl
    | cons c digits ih =>
      intro count
      have hc : count * 10 + Wire.valueOf [c] = 10 * count + (c.toNat - 48) := by
        simp only [Wire.valueOf, foldl_cons, foldl_nil]
        omega
      rw [readNumber, foldl_cons, hc]
      exact ih _
  rw [hfold]
  exact valueOf_digitsOf n

theorem readHand_digits {digits : Text} (hd : ∀ c ∈ digits, Wire.isNumeral c = true) (count : ℕ) (rest : Text) (hands : Hands) :
    readHand count (digits ++ rest) hands = readHand (readNumber count digits) rest hands := by
  induction digits generalizing count with
  | nil => rfl
  | cons c digits ih =>
    rw [cons_append, readHand, if_pos (hd c mem_cons_self), ih fun c hc => hd c (mem_cons_of_mem _ hc)]
    rfl

def Hands.gain (hands : Hands) (x : Side × Role) (n : ℕ) : Hands :=
  fun side role => if (side, role) = x then hands side role + n else hands side role

theorem gain_eq (hands : Hands) (side : Side) (role : Role) (n : ℕ) :
    update hands side (update (hands side) role (hands side role + n)) = hands.gain (side, role) n := by
  funext s r
  by_cases hs : s = side
  · subst hs
    by_cases hr : r = role
    · subst hr
      simp [Hands.gain]
    · simp [Hands.gain, hr]
  · simp [Hands.gain, hs]

theorem readHand_held (hands : Hands) (count : ℕ) (h : role ∈ handRoles) (side : Side) (rest : Text) :
    readHand 0 (heldText count (role.code side) ++ rest) hands = readHand 0 rest (hands.gain (side, role) count) := by
  obtain ⟨hn, -⟩ := code_ne role side
  have hcode : ∀ n, readHand n (role.code side :: rest) hands =
      readHand 0 rest (hands.gain (side, role) (if n = 0 then 1 else n)) := by
    intro n
    rw [readHand, if_neg (by rw [hn]; exact Bool.false_ne_true)]
    simp only [readRole_held h, gain_eq]
  unfold heldText
  split_ifs with h0 h1
  · subst h0
    have hsame : hands.gain (side, role) 0 = hands := by
      funext s r
      simp [Hands.gain]
    rw [hsame]
    rfl
  · rw [append_assoc, readHand_digits (isNumeral_digitsOf count), readNumber_digitsOf, singleton_append, hcode,
      if_neg h0]
  · obtain rfl : count = 1 := by omega
    rw [nil_append, singleton_append, hcode, if_pos rfl]

/-- The hands as SFEN writes them. -/
def Hands.written (hands : Hands) : Hands := fun side role => if role = .K then 0 else hands side role

def handKeys : List (Side × Role) := handRoles.map (Prod.mk .sente) ++ handRoles.map (Prod.mk .gote)

theorem sideText_keys (hands : Hands) :
    sideText hands .sente ++ sideText hands .gote = handKeys.flatMap fun x => heldText (hands x.1 x.2) (x.2.code x.1) := by
  rw [handKeys, flatMap_append, flatMap_map, flatMap_map]
  rfl

theorem readHand_keys (target : Hands) (hk : ∀ x ∈ keys, x.2 ∈ handRoles) (hands : Hands) :
    readHand 0 (keys.flatMap fun x => heldText (target x.1 x.2) (x.2.code x.1)) hands =
      .ok (keys.foldl (fun h x => h.gain x (target x.1 x.2)) hands) := by
  induction keys generalizing hands with
  | nil => rfl
  | cons x keys ih =>
    rw [flatMap_cons, readHand_held hands _ (hk x mem_cons_self) x.1, foldl_cons]
    exact ih (fun y hy => hk y (mem_cons_of_mem _ hy)) _

theorem foldl_gain (target : Hands) (hk : keys.Nodup) (hands : Hands) (side : Side) (role : Role) :
    keys.foldl (fun h x => h.gain x (target x.1 x.2)) hands side role =
      if (side, role) ∈ keys then hands side role + target side role else hands side role := by
  induction keys generalizing hands with
  | nil => rfl
  | cons x keys ih =>
    obtain ⟨hx, hk⟩ := nodup_cons.mp hk
    rw [foldl_cons, ih hk]
    by_cases he : (side, role) = x
    · subst he
      simp [hx, Hands.gain]
    · simp [he, Hands.gain]

theorem readHand_written (hands : Hands) : readHand 0 (sideText hands .sente ++ sideText hands .gote) emptyHands = .ok hands.written := by
  rw [sideText_keys, readHand_keys hands (by decide)]
  congr 1
  funext side role
  rw [foldl_gain hands (by decide)]
  cases side <;> cases role <;> simp [Hands.written, handKeys, handRoles, emptyHands]

theorem heldText_ne (count : ℕ) (c : Char) : ∀ d ∈ heldText count c, Wire.isNumeral d = true ∨ d = c := by
  intro d hd
  unfold heldText at hd
  split_ifs at hd
  · cases hd
  · rcases mem_append.mp hd with hd | hd
    · exact .inl (isNumeral_digitsOf count d hd)
    · exact .inr (mem_singleton.mp hd)
  · exact .inr (mem_singleton.mp hd)

theorem sides_chars (h : c ∈ sideText hands .sente ++ sideText hands .gote) :
    isSfenChar c = true ∧ c ≠ '-' ∧ c ≠ ' ' := by
  rw [sideText_keys] at h
  obtain ⟨x, -, hx⟩ := mem_flatMap.mp h
  rcases heldText_ne _ _ c hx with hc | rfl
  · refine ⟨(numeral_isSfenChar hc).1, ?_, (numeral_isSfenChar hc).2.2⟩
    rintro rfl
    exact absurd hc (by decide)
  · refine ⟨(code_isSfenChar x.2 x.1).1, ?_, (code_isSfenChar x.2 x.1).2.2⟩
    cases x.1 <;> cases x.2 <;> decide

theorem handText_chars (h : c ∈ handText hands) : isSfenChar c = true ∧ c ≠ ' ' := by
  unfold handText at h
  split at h
  · obtain rfl := mem_singleton.mp h
    decide
  · exact ⟨(sides_chars h).1, (sides_chars h).2.2⟩

theorem readHands_handText (hands : Hands) : readHands (handText hands) = .ok hands.written := by
  have hread := readHand_written hands
  unfold readHands handText
  split
  · next hnil =>
    rw [hnil] at hread
    exact hread
  · rw [if_neg]
    · exact hread
    · intro he
      exact (sides_chars (he ▸ mem_singleton.mpr rfl : '-' ∈ _)).2.1 rfl

/-! ## The whole text -/

include t

theorem readBoard_boardText : readBoard (boardText t) = .ok t := by
  have hrows : (List.finRange 9).zip ((List.finRange 9).map fun row => rowText 0 (t.cells row)) =
      (List.finRange 9).map fun r => (r, rowText 0 (t.cells r)) := map_prod_left_eq_zip.symm
  have hstart : emptyBoard = upTo t 0 0 := by
    funext s
    simp [upTo, emptyBoard]
  have hread := readRows_rows t 9 0 rfl
  rw [drop_zero, ← hstart] at hread
  simp only [readBoard, splitOn_boardText, length_map, length_finRange, if_true, hrows]
  exact hread

/-- The parts that `to_sfen` writes are read as what was written. -/
theorem readParts_written (hands : Hands) (turn : Turn) :
    readParts (boardText t) [turn.letter] (handText hands) = .ok (t, turn, hands.written) := by
  have hturn : readTurn [turn.letter] = .ok turn := by cases turn <;> rfl
  rw [readParts, hturn, readBoard_boardText, readHands_handText]
  rfl

omit t

theorem mem_intercalate {x : Char} {ls : List Text} (h : c ∈ [x].intercalate ls) : c = x ∨ ∃ l ∈ ls, c ∈ l := by
  induction ls with
  | nil => cases h
  | cons l ls ih =>
    cases ls with
    | nil => exact .inr ⟨l, mem_cons_self, by simpa [List.intercalate] using h⟩
    | cons l' ls =>
      have hsplit : [x].intercalate (l :: l' :: ls) = l ++ x :: [x].intercalate (l' :: ls) := by
        simp [List.intercalate]
      rcases mem_append.mp h with h | h
      · exact .inr ⟨l, mem_cons_self, h⟩
      · rcases mem_cons.mp h with h | h
        · exact .inl h
        · rcases ih h with hx | ⟨m, hm, hc⟩
          · exact .inl hx
          · exact .inr ⟨m, mem_cons_of_mem _ hm, hc⟩

theorem boardText_chars {t : Board} (h : c ∈ boardText t) : isSfenChar c = true ∧ c ≠ ' ' := by
  rcases mem_intercalate h with rfl | ⟨l, hl, hc⟩
  · decide
  · obtain ⟨row, -, rfl⟩ := mem_map.mp hl
    exact ⟨(rowText_chars hc).1, (rowText_chars hc).2.2⟩

theorem digitsOf_chars (h : c ∈ Wire.digitsOf n) : isSfenChar c = true ∧ c ≠ ' ' :=
  ⟨(numeral_isSfenChar (isNumeral_digitsOf n c h)).1, (numeral_isSfenChar (isNumeral_digitsOf n c h)).2.2⟩

theorem turn_chars (turn : Turn) (h : c ∈ [turn.letter]) : isSfenChar c = true ∧ c ≠ ' ' := by
  obtain rfl := mem_singleton.mp h
  cases turn <;> decide

include t

/-- The four fields of a text. -/
theorem fields_chars (hands : Hands) (turn : Turn) (n : ℕ) :
    ∀ l ∈ [boardText t, [turn.letter], handText hands, Wire.digitsOf n], ∀ c ∈ l, isSfenChar c = true ∧ c ≠ ' ' := by
  intro l hl c hc
  simp only [mem_cons, not_mem_nil, or_false] at hl
  rcases hl with rfl | rfl | rfl | rfl
  · exact boardText_chars hc
  · exact turn_chars turn hc
  · exact handText_chars hc
  · exact digitsOf_chars hc

theorem splitOn_toSfen (hands : Hands) (turn : Turn) (n : ℕ) :
    (toSfen t hands turn n).splitOn ' ' = [boardText t, [turn.letter], handText hands, Wire.digitsOf (max 1 n)] :=
  splitOn_intercalate _ (fun l hl hc => (fields_chars t hands turn _ l hl _ hc).2 rfl) (cons_ne_nil _ _)

theorem isSfen_toSfen (hands : Hands) (turn : Turn) (n : ℕ) :
    isSfen (toSfen t hands turn n) = decide ((toSfen t hands turn n).length ≤ maxSfen) := by
  have hpos : 1 ≤ (toSfen t hands turn n).length := by
    simp [toSfen, List.intercalate]
    omega
  have hall : (toSfen t hands turn n).all isSfenChar = true := by
    rw [all_eq_true]
    intro c hc
    rcases mem_intercalate hc with rfl | ⟨l, hl, hc⟩
    · decide
    · exact (fields_chars t hands turn _ l hl c hc).1
  rw [isSfen, hall, decide_eq_true hpos, Bool.true_and, Bool.and_true]

/-- The text is read again unless it is too long, and then it is refused. -/
theorem parseSfen_toSfen (hands : Hands) (turn : Turn) (n : ℕ) :
    parseSfen (toSfen t hands turn n) =
      if (toSfen t hands turn n).length ≤ maxSfen then .ok (t, turn, hands.written) else .error "invalid sfen" := by
  rw [parseSfen, isSfen_toSfen, splitOn_toSfen]
  simp only [decide_eq_true_eq, readParts_written]

omit t

/-! ## How long the text is -/

/-- How many of these squares hold a promoted piece. -/
def promotions (cells : List (Option Piece)) : ℕ := cells.countP fun cell => cell.any Piece.promoted

theorem length_emptyText (h : e ≤ 9) : (emptyText e).length ≤ 1 := by
  by_cases h0 : e = 0
  · subst h0
    decide
  · obtain ⟨c, hc, -, -⟩ := emptyText_digit h0 h
    rw [hc]
    rfl

theorem length_rowText (h : e + cells.length ≤ 9) :
    (rowText e cells).length ≤ (if e = 0 then 0 else 1) + cells.length + promotions cells := by
  induction cells generalizing e with
  | nil =>
    have := length_emptyText (e := e) (by omega)
    rw [rowText]
    split_ifs with h0
    · subst h0
      decide
    · omega
  | cons cell cells ih =>
    rw [length_cons] at h ⊢
    cases cell with
    | none =>
      have := ih (e := e + 1) (by omega)
      rw [if_neg (Nat.succ_ne_zero e)] at this
      have hp : promotions (none :: cells) = promotions cells := by simp [promotions]
      rw [rowText, hp]
      omega
    | some p =>
      have := ih (e := 0) (by omega)
      rw [if_pos rfl] at this
      have he : (emptyText e).length ≤ if e = 0 then 0 else 1 := by
        split_ifs with h0
        · subst h0
          decide
        · exact length_emptyText (by omega)
      have hp : p.text.length + promotions cells = 1 + promotions (some p :: cells) := by
        cases hpr : p.promoted <;> simp [promotions, Piece.text, hpr]
        omega
      rw [rowText, length_append, length_append]
      omega

theorem length_digitsOf (h : n < 100) : (Wire.digitsOf n).length ≤ 2 := by
  rcases Nat.lt_or_ge n 10 with hn | hn
  · rw [digitsOf_small hn]
    exact Nat.le_succ 1
  · rw [digitsOf_step hn, digitsOf_small (Nat.div_lt_of_lt_mul h)]
    exact le_rfl

theorem length_heldText {count : ℕ} (h : count < 100) (c : Char) : (heldText count c).length ≤ 3 := by
  have hd := length_digitsOf h
  unfold heldText
  split_ifs
  · exact Nat.zero_le 3
  · rw [length_append, length_singleton]
    omega
  · exact Nat.le_add_left 1 2

theorem length_handText (h : ∀ side, ∀ role ∈ handRoles, hands side role < 100) : (handText hands).length ≤ 42 := by
  have hkeys : ∀ keys : List (Side × Role), (∀ x ∈ keys, x.2 ∈ handRoles) →
      (keys.flatMap fun x => heldText (hands x.1 x.2) (x.2.code x.1)).length ≤ 3 * keys.length := by
    intro keys hk
    induction keys with
    | nil => exact le_rfl
    | cons x keys ih =>
      have hx := length_heldText (h x.1 x.2 (hk x mem_cons_self)) (x.2.code x.1)
      have hrest := ih fun y hy => hk y (mem_cons_of_mem _ hy)
      rw [flatMap_cons, length_append, length_cons]
      omega
  have hsum := hkeys handKeys (by decide)
  rw [← sideText_keys] at hsum
  unfold handText
  split
  · decide
  · exact hsum

def promotedPieces (t : Board) : ℕ := ((List.finRange 9).map fun row => promotions (t.cells row)).sum

include t in
theorem length_boardText : (boardText t).length ≤ 89 + promotedPieces t := by
  have hrow : ∀ row, (rowText 0 (t.cells row)).length ≤ 9 + promotions (t.cells row) := by
    intro row
    have hlen : (t.cells row).length = 9 := by simp [Board.cells]
    have hrow : 0 + (t.cells row).length ≤ 9 := by omega
    have := length_rowText hrow
    rw [if_pos rfl, hlen] at this
    omega
  have hrows : ∀ rows : List (Fin 9), ((['/'].intercalate (rows.map fun row => rowText 0 (t.cells row))).length ≤
      10 * rows.length - 1 + (rows.map fun row => promotions (t.cells row)).sum) := by
    intro rows
    induction rows with
    | nil => exact Nat.zero_le _
    | cons row rows ih =>
      have := hrow row
      cases rows with
      | nil =>
        simp [List.intercalate] at this ⊢
        omega
      | cons row' rows =>
        simp [List.intercalate] at this ih ⊢
        omega
  exact hrows (List.finRange 9)

theorem length_toSfen {t : Board} (ht : promotedPieces t ≤ 40)
    (h : ∀ side, ∀ role ∈ handRoles, hands side role < 100) (turn : Turn) : (toSfen t hands turn 1).length ≤ maxSfen := by
  have hboard := length_boardText t
  have hhand := length_handText h
  have hnumber : (Wire.digitsOf (max 1 1)).length = 1 := by decide
  simp only [toSfen, List.intercalate, List.intersperse, flatten_cons, flatten_nil, length_append, length_cons,
    length_nil, hnumber, maxSfen]
  omega

end Docich.Shogi
