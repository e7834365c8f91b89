import Docich.Overlay.Queue
import Docich.Wire.Blanks

/-!
# Moves in the chat

`parseMove` of the worker and `parse_move` of the corner, which are to read one grammar (`Spelled`). Each reads it with
the blanks of its language (`parse_iff`), and these differ in six characters: so the two agree on a text unless it has
some of these, all of one language, where a blank may stand in a move (`parse_agree_iff`).
-/

namespace Docich.Othello.Chat

open Wire.Blanks List

abbrev Text : Type := List Char

/-! ## Characters -/

/-- What JavaScript trims and `\\s` matches: white space and line terminators. -/
def isJsSpace (c : Char) : Bool :=
  (9 ≤ c.toNat && c.toNat ≤ 13) || c.toNat = 0x20 || c.toNat = 0xa0 || c.toNat = 0x1680 ||
    (0x2000 ≤ c.toNat && c.toNat ≤ 0x200a) || c.toNat = 0x2028 || c.toNat = 0x2029 || c.toNat = 0x202f || c.toNat = 0x205f ||
    c.toNat = 0x3000 || c.toNat = 0xfeff

/-- `str.isspace` -/
abbrev isPySpace : Char → Bool := Overlay.isSpace

def isAnySpace (c : Char) : Bool := isJsSpace c || isPySpace c

/-- What the Unicode standard says of the lower case of a character, which may depend on the text around it. Outside of
ASCII only two characters have an ASCII letter in their lower case, which is `i` or `k`. -/
structure Lowercase where
  char : Text → Char → Text → Text
  ascii : ∀ before c after, c.toNat < 128 → char before c after = [c.toLower]
  other : ∀ before c after, 128 ≤ c.toNat → isAnySpace c = false →
    char before c after ≠ [] ∧ ∀ d ∈ char before c after, isAnySpace d = false ∧ (d.toNat < 128 → d = 'i' ∨ d = 'k')
  space : ∀ before c after, isAnySpace c = true → char before c after = [c]

def Lowercase.textFrom (m : Lowercase) (before : Text) : Text → Text
  | [] => []
  | c :: after => m.char before c after ++ m.textFrom (before ++ [c]) after

def Lowercase.text (m : Lowercase) (t : Text) : Text := m.textFrom [] t

/-- The code units of a character. -/
def utf16 (c : Char) : List ℕ :=
  if c.toNat < 0x10000 then [c.toNat]
  else [0xd800 + (c.toNat - 0x10000) / 0x400, 0xdc00 + (c.toNat - 0x10000) % 0x400]

/-! ## The two parsers -/

def dropBang (blank : Char → Bool) : Text → Text
  | '!' :: t => strip blank t
  | t => t

def readWords (blank : Char → Bool) (square : Text → Option (ℕ × ℕ)) (t : Text) : Option (ℕ × ℕ) :=
  match words blank t with
  | [verb, word] => if verb = "move".toList ∨ verb = "m".toList then square word else none
  | _ :: _ :: _ :: _ => none
  | _ => square t

/-- Both parsers, but for the blanks and the square. -/
def parse (blank : Char → Bool) (m : Lowercase) (square : Text → Option (ℕ × ℕ)) (text : Text) : Option (ℕ × ℕ) :=
  readWords blank square (dropBang blank (m.text (strip blank text)))

/-- The square of `parseMove`, on code units. -/
def jsSquare (t : Text) : Option (ℕ × ℕ) :=
  match t.flatMap utf16 with
  | [col, row] =>
    if col ∈ "abcdefgh".toList.map Char.toNat ∧ row ∈ "12345678".toList.map Char.toNat then some (row - 49, col - 97) else none
  | _ => none

/-- The square of `parse_move`. -/
def pySquare (t : Text) : Option (ℕ × ℕ) :=
  match t with
  | [col, row] =>
    if col ∈ "abcdefgh".toList ∧ row ∈ "12345678".toList then some (row.toNat - '1'.toNat, col.toNat - 'a'.toNat) else none
  | _ => none

/-- `parseMove` of the worker. -/
def jsParseMove (m : Lowercase) (text : Text) : Option (ℕ × ℕ) := parse isJsSpace m jsSquare text

/-- `parse_move` of the corner. -/
def pyParseMove (m : Lowercase) (text : Text) : Option (ℕ × ℕ) := parse isPySpace m pySquare text

/-! ## Squares -/

theorem utf16_cases (c : Char) : (utf16 c = [c.toNat] ∧ c.toNat < 0x10000) ∨
    ∃ u v, utf16 c = [u, v] ∧ 0xd800 ≤ u ∧ 0x10000 ≤ c.toNat := by
  unfold utf16
  split_ifs with h
  · exact .inl ⟨rfl, h⟩
  · exact .inr ⟨_, _, rfl, Nat.le_add_right _ _, Nat.le_of_not_lt h⟩

theorem files_small : ∀ u ∈ "abcdefgh".toList.map Char.toNat, u < 128 := by simp

variable {c r : Char} {t verb : Text} {row col : ℕ} {blank : Char → Bool} {x : ℕ × ℕ}

theorem mem_units {letters : Text} : c.toNat ∈ letters.map Char.toNat ↔ c ∈ letters :=
  mem_map_of_injective fun _ _ h => Char.toNat_inj.mp h

theorem jsSquare_eq : jsSquare = pySquare := by
  funext t
  match t with
  | [] => rfl
  | [c] =>
    rcases utf16_cases c with ⟨h, -⟩ | ⟨u, v, h, hu, -⟩
    · simp [jsSquare, pySquare, h]
    · have hnot : u ∉ "abcdefgh".toList.map Char.toNat := fun hm => by
        have := files_small u hm
        omega
      simp only [jsSquare, pySquare, flatMap_cons, flatMap_nil, h, append_nil, hnot, false_and, if_false]
  | [c, d] =>
    rcases utf16_cases c with ⟨hc, -⟩ | ⟨u, v, hc, -, hbig⟩
    · rcases utf16_cases d with ⟨hd, -⟩ | ⟨u, v, hd, -, hbig⟩
      · simp only [jsSquare, pySquare, flatMap_cons, flatMap_nil, hc, hd, append_nil, cons_append,
          nil_append, mem_units]
        rfl
      · have hnot : d ∉ "12345678".toList := fun hm => by
          have : ∀ x ∈ "12345678".toList, x.toNat < 128 := by simp
          have := this d hm
          omega
        simp only [jsSquare, pySquare, flatMap_cons, flatMap_nil, hc, hd, append_nil, cons_append,
          nil_append, hnot, and_false, if_false]
    · have hnot : c ∉ "abcdefgh".toList := fun hm => by
        have := files_small _ (mem_units.mpr hm)
        omega
      obtain ⟨x, xs, hd⟩ : ∃ x xs, utf16 d = x :: xs := by
        rcases utf16_cases d with ⟨hd, -⟩ | ⟨u, v, hd, -⟩
        · exact ⟨_, _, hd⟩
        · exact ⟨_, _, hd⟩
      simp only [jsSquare, pySquare, flatMap_cons, flatMap_nil, hc, hd, append_nil, cons_append,
        nil_append, hnot, false_and, if_false]
  | c :: d :: e :: t =>
    have hone : ∀ x : Char, ∃ u us, utf16 x = u :: us := by
      intro x
      rcases utf16_cases x with ⟨h, -⟩ | ⟨u, v, h, -⟩
      · exact ⟨_, _, h⟩
      · exact ⟨_, _, h⟩
    obtain ⟨a, as, ha⟩ := hone c
    obtain ⟨b, bs, hb⟩ := hone d
    obtain ⟨x, xs, hx⟩ := hone e
    have hlen : 3 ≤ ((c :: d :: e :: t).flatMap utf16).length := by
      simp only [flatMap_cons, ha, hb, hx, length_append, length_cons]
      omega
    unfold jsSquare pySquare
    split
    · next h =>
      rw [h] at hlen
      simp at hlen
    · rfl

/-! ## The grammar -/

/-- What may stand before the square: the command, with blanks behind it. -/
def Command (blank : Char → Bool) (verb : Text) : Prop :=
  verb = [] ∨ ∃ v d, verb = v ++ d ∧ (v = "move".toList ∨ v = "m".toList) ∧ AllBlank blank d ∧ d ≠ []

/-- The text of a move on a square, once it is in lower case: an exclamation mark and the word `move` or `m` may stand
before the square. -/
def Shape (blank : Char → Bool) (t : Text) (row col : ℕ) : Prop :=
  ∃ a bang b verb c r e, t = a ++ bang ++ b ++ verb ++ [c, r] ++ e ∧ AllBlank blank a ∧ AllBlank blank b ∧ AllBlank blank e ∧
    (bang = [] ∨ bang = ['!']) ∧ Command blank verb ∧ pySquare [c, r] = some (row, col)

/-- A move as it is written in the chat. -/
def Spelled (blank : Char → Bool) (text : Text) (row col : ℕ) : Prop := Shape blank (text.map Char.toLower) row col

/-- Blanks of a language: none of the characters that a move is made of. -/
structure Language (blank : Char → Bool) : Prop where
  any : ∀ c, blank c = true → isAnySpace c = true
  letter : ∀ c ∈ "!move12345678abcdfgh".toList, blank c = false
  lower : ∀ c, blank c.toLower = blank c

theorem pySquare_some (h : pySquare t = some (row, col)) : ∃ c r, t = [c, r] ∧
    c ∈ "abcdefgh".toList ∧ r ∈ "12345678".toList := by
  unfold pySquare at h
  split at h
  · next c r =>
    split at h
    · next hm => exact ⟨c, r, rfl, hm⟩
    · cases h
  · cases h

theorem verb_letters : ∀ x ∈ "move".toList, x ∈ "!move12345678abcdfgh".toList := by simp

theorem short_letters : ∀ x ∈ "m".toList, x ∈ "!move12345678abcdfgh".toList := by simp

theorem file_letters : ∀ x ∈ "abcdefgh".toList, x ∈ "!move12345678abcdfgh".toList := by simp

theorem rank_letters : ∀ x ∈ "12345678".toList, x ∈ "!move12345678abcdfgh".toList := by simp

theorem shape_letters (h : Shape blank t row col) :
    ∀ c ∈ t, blank c = true ∨ c ∈ "!move12345678abcdfgh".toList := by
  obtain ⟨a, bang, b, verb, c, r, e, rfl, ha, hb, he, hbang, hverb, hsq⟩ := h
  obtain ⟨c', r', hcr, hc, hr⟩ := pySquare_some hsq
  cases hcr
  intro x hx
  simp only [mem_append, mem_cons, not_mem_nil, or_false] at hx
  rcases hx with ((((hx | hx) | hx) | hx) | rfl | rfl) | hx
  · exact .inl (ha x hx)
  · rcases hbang with rfl | rfl
    · cases hx
    · rw [mem_singleton.mp hx]
      exact .inr (by simp)
  · exact .inl (hb x hx)
  · rcases hverb with rfl | ⟨v, d, rfl, hv, hd, -⟩
    · cases hx
    · rcases mem_append.mp hx with hx | hx
      · right
        rcases hv with rfl | rfl
        · exact verb_letters x hx
        · exact short_letters x hx
      · exact .inl (hd x hx)
  · exact .inr (file_letters x hc)
  · exact .inr (rank_letters x hr)
  · exact .inl (he x hx)

/-! ## Reading -/

variable {blank : Char → Bool}

theorem readWords_shape (h : readWords blank pySquare t = some (row, col)) :
    ∃ b verb c r e, t = b ++ verb ++ [c, r] ++ e ∧ AllBlank blank b ∧ AllBlank blank e ∧ Command blank verb ∧
      pySquare [c, r] = some (row, col) := by
  unfold readWords at h
  split at h
  · next verb word hw =>
    split at h
    · next hv =>
      obtain ⟨c, r, rfl, -⟩ := pySquare_some h
      obtain ⟨a, d, e, ha, hd, hne, he, rfl⟩ := words_two hw
      exact ⟨a, verb ++ d, c, r, e, by simp only [append_assoc], ha, he, .inr ⟨verb, d, rfl, hv, hd, hne⟩, h⟩
    · cases h
  · cases h
  · obtain ⟨c, r, rfl, -⟩ := pySquare_some h
    exact ⟨[], [], c, r, [], rfl, allBlank_nil, allBlank_nil, .inl rfl, h⟩

theorem read_shape (h : readWords blank pySquare (dropBang blank t) = some (row, col)) :
    Shape blank t row col := by
  obtain ⟨b, verb, c, r, e, ht, hb, he, hverb, hsq⟩ := readWords_shape h
  unfold dropBang at ht
  split at ht
  · next t =>
    obtain ⟨a', e', ha', he', htext⟩ := strip_spec blank t
    refine ⟨[], ['!'], a' ++ b, verb, c, r, e ++ e', ?_, allBlank_nil, ha'.append hb, he.append he', .inr rfl, hverb, hsq⟩
    rw [htext, ht]
    simp
  · exact ⟨[], [], b, verb, c, r, e, by rw [ht]; simp, allBlank_nil, hb, he, .inl rfl, hverb, hsq⟩

variable (hl : Language blank)

include hl

theorem readWords_command (hverb : Command blank verb)
    (hsq : pySquare [c, r] = some x) : readWords blank pySquare (verb ++ [c, r]) = some x := by
  obtain ⟨c', r', hcr, hc, hr⟩ := pySquare_some hsq
  cases hcr
  have hword : NoBlank blank [c, r] := by
    intro x hx
    simp only [mem_cons, not_mem_nil, or_false] at hx
    rcases hx with rfl | rfl
    · exact hl.letter x (file_letters x hc)
    · exact hl.letter x (rank_letters x hr)
  have hlast := words_last hword (cons_ne_nil _ _)
  rcases hverb with rfl | ⟨v, d, rfl, hv, hd, hne⟩
  · rw [readWords, nil_append, hlast]
    exact hsq
  · have hnb : NoBlank blank v ∧ v ≠ [] := by
      rcases hv with rfl | rfl
      · exact ⟨fun x hx => hl.letter x (verb_letters x hx), by simp⟩
      · exact ⟨fun x hx => hl.letter x (short_letters x hx), by simp⟩
    obtain ⟨y, d, rfl⟩ := exists_cons_of_ne_nil hne
    have hd' : AllBlank blank d := fun z hz => hd z (mem_cons_of_mem _ hz)
    rw [readWords, append_assoc, cons_append, words_word hnb.1 hnb.2 (hd y mem_cons_self), words_blank hd', hlast]
    simp only [hv, if_true, hsq]

theorem command_head (hverb : Command blank verb)
    (hsq : pySquare [c, r] = some x) : ∃ z, (verb ++ [c, r]).head? = some z ∧ blank z = false ∧ z ≠ '!' := by
  obtain ⟨c', r', hcr, hc, hr⟩ := pySquare_some hsq
  cases hcr
  have hfile : ∀ x ∈ "abcdefgh".toList, x ∈ "!move12345678abcdfgh".toList ∧ x ≠ '!' := by simp
  rcases hverb with rfl | ⟨v, d, rfl, rfl | rfl, -⟩
  · exact ⟨c, rfl, hl.letter c (hfile c hc).1, (hfile c hc).2⟩
  · exact ⟨'m', rfl, hl.letter 'm' (by simp), by simp⟩
  · exact ⟨'m', rfl, hl.letter 'm' (by simp), by simp⟩

theorem shape_read (h : Shape blank t row col) :
    readWords blank pySquare (dropBang blank (strip blank t)) = some (row, col) := by
  obtain ⟨a, bang, b, verb, c, r, e, rfl, ha, hb, he, hbang, hverb, hsq⟩ := h
  obtain ⟨z, hz, hzb, hzne⟩ := command_head hl hverb hsq
  obtain ⟨c', r', hcr, hc, hr⟩ := pySquare_some hsq
  cases hcr
  have hrank : blank r = false := hl.letter r (rank_letters r hr)
  have hlast : ∀ s : Text, (s ++ [c, r]).getLast? = some r := fun s => by simp
  rcases hbang with rfl | rfl
  · have hmid : a ++ [] ++ b ++ verb ++ [c, r] ++ e = (a ++ b) ++ (verb ++ [c, r]) ++ e := by simp
    have hkeep : dropBang blank (verb ++ [c, r]) = verb ++ [c, r] := by
      unfold dropBang
      split
      · next heq =>
        rw [heq] at hz
        cases hz
        exact absurd rfl hzne
      · rfl
    rw [hmid, strip_between (ha.append hb) he hz hzb (hlast verb) hrank, hkeep]
    exact readWords_command hl hverb hsq
  · have hmid : a ++ ['!'] ++ b ++ verb ++ [c, r] ++ e = a ++ (('!' :: (b ++ verb)) ++ [c, r]) ++ e := by simp
    have hinner : b ++ verb ++ [c, r] = b ++ (verb ++ [c, r]) ++ [] := by simp
    rw [hmid, strip_between ha he rfl (hl.letter '!' (by simp)) (hlast _) hrank, cons_append, dropBang, hinner,
      strip_between hb allBlank_nil hz hzb (hlast verb) hrank]
    exact readWords_command hl hverb hsq

omit hl

/-! ## Lower case -/

/-- A character that is a blank somewhere, or ASCII. -/
def Plain (c : Char) : Prop := c.toNat < 128 ∨ isAnySpace c = true

theorem toLower_big (h : 128 ≤ c.toNat) : c.toLower = c := by
  have hval : 128 ≤ c.val.toNat := h
  unfold Char.toLower
  rw [dif_neg]
  rintro ⟨-, hle⟩
  have hle' : c.val.toNat ≤ 'Z'.val.toNat := UInt32.le_iff_toNat_le.mp hle
  have hZ : 'Z'.val.toNat = 90 := rfl
  omega

theorem textFrom_plain (m : Lowercase) (ht : ∀ c ∈ t, Plain c) (before : Text) :
    m.textFrom before t = t.map Char.toLower := by
  induction t generalizing before with
  | nil => rfl
  | cons c t ih =>
    have hc : m.char before c t = [c.toLower] := by
      by_cases hsmall : c.toNat < 128
      · exact m.ascii before c t hsmall
      · have hspace := (ht c mem_cons_self).resolve_left hsmall
        rw [m.space before c t hspace, toLower_big (Nat.le_of_not_lt hsmall)]
    rw [Lowercase.textFrom, hc, ih fun d hd => ht d (mem_cons_of_mem _ hd)]
    rfl

/-- A character that is not plain leaves one that is in no move. -/
theorem textFrom_odd (m : Lowercase) (hc : c ∈ t) (hodd : ¬ Plain c) (before : Text) :
    ∃ d ∈ m.textFrom before t, isAnySpace d = false ∧ d ∉ "!move12345678abcdfgh".toList := by
  induction t generalizing before with
  | nil => cases hc
  | cons x t ih =>
    rcases mem_cons.mp hc with rfl | hc
    · obtain ⟨hbig, hspace⟩ := not_or.mp hodd
      obtain ⟨hne, hall⟩ := m.other before c t (Nat.le_of_not_lt hbig) (Bool.not_eq_true _ ▸ hspace)
      obtain ⟨d, ds, hd⟩ := exists_cons_of_ne_nil hne
      have hmem : d ∈ m.char before c t := by
        rw [hd]
        exact mem_cons_self
      obtain ⟨hds, hik⟩ := hall d hmem
      refine ⟨d, mem_append_left _ hmem, hds, fun hlet => ?_⟩
      have hsmall : d.toNat < 128 := (by simp : ∀ x ∈ "!move12345678abcdfgh".toList, x.toNat < 128) d hlet
      rcases hik hsmall with rfl | rfl
      · exact absurd hlet (by simp)
      · exact absurd hlet (by simp)
    · obtain ⟨d, hd, h⟩ := ih hc (before ++ [x])
      exact ⟨d, mem_append_right _ hd, h⟩

include hl in
/-- What is read is what is spelled. -/
theorem parse_iff (m : Lowercase) (text : Text) (row col : ℕ) :
    parse blank m pySquare text = some (row, col) ↔ Spelled blank text row col := by
  have hstrip : strip blank (text.map Char.toLower) = (strip blank text).map Char.toLower := strip_map hl.lower text
  constructor
  · intro h
    have hshape := read_shape h
    have hplain : ∀ c ∈ strip blank text, Plain c := by
      intro c hc
      by_contra hodd
      obtain ⟨d, hd, hspace, hlet⟩ := textFrom_odd m hc hodd []
      rcases shape_letters hshape d hd with hb | hb
      · exact absurd (hl.any d hb) (by rw [hspace]; exact Bool.false_ne_true)
      · exact hlet hb
    have htext : m.text (strip blank text) = strip blank (text.map Char.toLower) := by
      rw [hstrip]
      exact textFrom_plain m hplain []
    rw [htext] at hshape
    obtain ⟨a, e, ha, he, hsplit⟩ := strip_spec blank (text.map Char.toLower)
    obtain ⟨a', bang, b, verb, c, r, e', hst, ha', hb, he', hrest⟩ := hshape
    refine ⟨a ++ a', bang, b, verb, c, r, e' ++ e, ?_, ha.append ha', hb, he'.append he, hrest⟩
    rw [hsplit, hst]
    simp only [append_assoc]
  · intro h
    have hplain : ∀ c ∈ strip blank text, Plain c := by
      intro c hc
      have hmem : c.toLower ∈ text.map Char.toLower := mem_map_of_mem (strip_subset blank text hc)
      rcases shape_letters h _ hmem with hb | hb
      · rw [hl.lower] at hb
        exact .inr (hl.any c hb)
      · left
        by_contra hbig
        rw [toLower_big (Nat.le_of_not_lt hbig)] at hb
        exact hbig ((by simp : ∀ x ∈ "!move12345678abcdfgh".toList, x.toNat < 128) c hb)
    have htext : m.text (strip blank text) = strip blank (text.map Char.toLower) := by
      rw [hstrip]
      exact textFrom_plain m hplain []
    rw [parse, htext]
    exact shape_read hl h

/-! ## The blanks of the two languages -/

/-- What only JavaScript takes for a blank: U+FEFF. -/
def jsOnly (c : Char) : Bool := c.toNat = 0xfeff

/-- What only Python takes for a blank: U+001C to U+001F, and U+0085. -/
def pyOnly (c : Char) : Bool := (0x1c ≤ c.toNat && c.toNat ≤ 0x1f) || c.toNat = 0x85

theorem toLower_cases (c : Char) : c.toLower = c ∨ (65 ≤ c.toNat ∧ c.toNat ≤ 90 ∧ 97 ≤ c.toLower.toNat ∧ c.toLower.toNat ≤ 122) := by
  by_cases h : c.toNat < 128
  · have hall : ∀ n < 128, (Char.ofNat n).toLower = Char.ofNat n ∨
        (65 ≤ (Char.ofNat n).toNat ∧ (Char.ofNat n).toNat ≤ 90 ∧ 97 ≤ (Char.ofNat n).toLower.toNat ∧
          (Char.ofNat n).toLower.toNat ≤ 122) := by decide
    have := hall c.toNat h
    rwa [Char.ofNat_toNat] at this
  · exact .inl (toLower_big (Nat.le_of_not_lt h))

theorem any_js (c : Char) : isAnySpace c = (isJsSpace c || pyOnly c) := by
  rw [Bool.eq_iff_iff]
  simp only [isAnySpace, isJsSpace, isPySpace, Overlay.isSpace, pyOnly, Bool.or_eq_true, Bool.and_eq_true, decide_eq_true_eq]
  omega

theorem any_py (c : Char) : isAnySpace c = (isPySpace c || jsOnly c) := by
  rw [Bool.eq_iff_iff]
  simp only [isAnySpace, isJsSpace, isPySpace, Overlay.isSpace, jsOnly, Bool.or_eq_true, Bool.and_eq_true, decide_eq_true_eq]
  omega

/-- A test of characters that the letters do not meet is the same in lower case. -/
theorem toLower_test {f : Char → Bool} (hf : ∀ c : Char, (65 ≤ c.toNat ∧ c.toNat ≤ 90) ∨ (97 ≤ c.toNat ∧ c.toNat ≤ 122) → f c = false)
    (c : Char) : f c.toLower = f c := by
  rcases toLower_cases c with h | ⟨h1, h2, h3, h4⟩
  · rw [h]
  · rw [hf c (.inl ⟨h1, h2⟩), hf _ (.inr ⟨h3, h4⟩)]

theorem isAnySpace_letter (c : Char) (h : (65 ≤ c.toNat ∧ c.toNat ≤ 90) ∨ (97 ≤ c.toNat ∧ c.toNat ≤ 122)) : isAnySpace c = false := by
  rw [← Bool.not_eq_true]
  simp only [isAnySpace, isJsSpace, isPySpace, Overlay.isSpace, Bool.or_eq_true, Bool.and_eq_true, decide_eq_true_eq]
  omega

theorem isAnySpace_move : ∀ c ∈ "!move12345678abcdfgh".toList, isAnySpace c = false := by
  intro c hc
  have hrange : 33 ≤ c.toNat ∧ c.toNat ≤ 126 := by
    revert c
    simp
  rw [← Bool.not_eq_true]
  simp only [isAnySpace, isJsSpace, isPySpace, Overlay.isSpace, Bool.or_eq_true, Bool.and_eq_true, decide_eq_true_eq]
  omega

/-- Blanks that are blanks somewhere are no letters. -/
theorem Language.of_any (h : ∀ c, blank c = true → isAnySpace c = true) : Language blank where
  any := h
  letter c hc := by
    rw [← Bool.not_eq_true]
    exact fun hb => absurd (h c hb) (by rw [isAnySpace_move c hc]; exact Bool.false_ne_true)
  lower := toLower_test fun c hc => by
    rw [← Bool.not_eq_true]
    exact fun hb => absurd (h c hb) (by rw [isAnySpace_letter c hc]; exact Bool.false_ne_true)

theorem language_js : Language isJsSpace := .of_any fun c h => by rw [any_js, h, Bool.true_or]

theorem language_py : Language isPySpace := .of_any fun c h => by rw [any_py, h, Bool.true_or]

theorem Shape.mono {blank' : Char → Bool} (h : Shape blank t row col)
    (hsub : ∀ c ∈ t, blank c = true → blank' c = true) : Shape blank' t row col := by
  obtain ⟨a, bang, b, verb, c, r, e, rfl, ha, hb, he, hbang, hverb, hsq⟩ := h
  refine ⟨a, bang, b, verb, c, r, e, rfl, fun x hx => hsub x ?_ (ha x hx), fun x hx => hsub x ?_ (hb x hx),
    fun x hx => hsub x ?_ (he x hx), hbang, ?_, hsq⟩
  · simp [hx]
  · simp [hx]
  · simp [hx]
  · rcases hverb with rfl | ⟨v, d, rfl, hv, hd, hne⟩
    · exact .inl rfl
    · exact .inr ⟨v, d, rfl, hv, fun x hx => hsub x (by simp [hx]) (hd x hx), hne⟩

/-- A language reads the moves in which the blanks are its own. -/
theorem spelled_iff {odd : Char → Bool} (hany : ∀ c, isAnySpace c = (blank c || odd c)) (hodd : ∀ c, odd c = true → blank c = false)
    (text : Text) (row col : ℕ) :
    Spelled blank text row col ↔ Spelled isAnySpace text row col ∧ ∀ c ∈ text, odd c = false := by
  have hany' : ∀ c, odd c = true → isAnySpace c = true := fun c h => by rw [hany, h, Bool.or_true]
  have hlow : ∀ c, odd c.toLower = odd c := (Language.of_any hany').lower
  constructor
  · intro h
    refine ⟨h.mono fun c _ hb => by rw [hany, hb, Bool.true_or], fun c hc => ?_⟩
    rw [← Bool.not_eq_true]
    intro ho
    rw [← hlow] at ho
    rcases shape_letters h _ (mem_map_of_mem hc) with hb | hb
    · rw [hodd _ ho] at hb
      cases hb
    · exact absurd (hany' _ ho) (by rw [isAnySpace_move _ hb]; exact Bool.false_ne_true)
  · rintro ⟨h, hno⟩
    refine h.mono fun c hc hb => ?_
    obtain ⟨d, hd, rfl⟩ := mem_map.mp hc
    rw [hany, hlow, hno d hd, Bool.or_false] at hb
    exact hb

/-- **The two parsers agree on a text** exactly if it has a blank of JavaScript alone when it has one of Python alone, or is
no move even with these taken for blanks: whatever the lower case of the two languages makes of other letters. -/
theorem parse_agree_iff (m m' : Lowercase) (text : Text) :
    jsParseMove m text = pyParseMove m' text ↔
      ((∃ c ∈ text, jsOnly c = true) ↔ ∃ c ∈ text, pyOnly c = true) ∨ ∀ row col, ¬ Spelled isAnySpace text row col := by
  have hjs : ∀ row col, jsParseMove m text = some (row, col) ↔
      Spelled isAnySpace text row col ∧ ¬ ∃ c ∈ text, pyOnly c = true := by
    intro row col
    have hodd : ∀ c, pyOnly c = true → isJsSpace c = false := by
      intro c hc
      rw [← Bool.not_eq_true]
      simp only [pyOnly, isJsSpace, Bool.or_eq_true, Bool.and_eq_true, decide_eq_true_eq] at hc ⊢
      omega
    rw [jsParseMove, jsSquare_eq, parse_iff language_js, spelled_iff any_js hodd]
    simp
  have hpy : ∀ row col, pyParseMove m' text = some (row, col) ↔
      Spelled isAnySpace text row col ∧ ¬ ∃ c ∈ text, jsOnly c = true := by
    intro row col
    have hodd : ∀ c, jsOnly c = true → isPySpace c = false := by
      intro c hc
      rw [← Bool.not_eq_true]
      simp only [jsOnly, isPySpace, Overlay.isSpace, Bool.or_eq_true, Bool.and_eq_true, decide_eq_true_eq] at hc ⊢
      omega
    rw [pyParseMove, parse_iff language_py, spelled_iff any_py hodd]
    simp
  have heq : jsParseMove m text = pyParseMove m' text ↔
      ∀ row col, jsParseMove m text = some (row, col) ↔ pyParseMove m' text = some (row, col) := by
    rw [Option.ext_iff]
    exact ⟨fun h row col => h (row, col), fun h x => h x.1 x.2⟩
  rw [heq]
  simp only [hjs, hpy]
  by_cases hj : ∃ c ∈ text, jsOnly c = true
  · by_cases hp : ∃ c ∈ text, pyOnly c = true
    · simp only [hj, hp, not_true, and_false, true_or, implies_true]
    · simp only [hj, hp, not_true, not_false_eq_true, and_true, and_false, iff_false, false_or]
  · by_cases hp : ∃ c ∈ text, pyOnly c = true
    · simp only [hj, hp, not_true, not_false_eq_true, and_true, and_false, false_iff, false_or]
    · simp only [hj, hp, true_or, implies_true]

/-- The lower case of ASCII letters alone. -/
def asciiLower : Lowercase where
  char _ c _ := [c.toLower]
  ascii _ _ _ _ := rfl
  other _ c _ hc hs := by
    refine ⟨cons_ne_nil _ _, fun d hd => ?_⟩
    rw [toLower_big hc, mem_singleton] at hd
    subst hd
    exact ⟨hs, fun h => absurd hc (Nat.not_le_of_lt h)⟩
  space _ c _ hs := by
    rcases toLower_cases c with h | ⟨h1, h2, -⟩
    · rw [h]
    · rw [isAnySpace_letter c (.inl ⟨h1, h2⟩)] at hs
      cases hs

/-- A byte order mark before the square is a blank of the worker alone. -/
theorem parse_disagree : jsParseMove asciiLower ['\ufeff', 'd', '3'] = some (2, 3) ∧
    pyParseMove asciiLower ['\ufeff', 'd', '3'] = none := by
  decide

end Docich.Othello.Chat
