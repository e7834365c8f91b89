import Docich.Plain

/-!
# Scanning C strings

`strstr` and `strtol` on lists of characters, and how `strstr` finds a quoted word: in a text whose quotes are known,
the first place where the word stands between two of them (`strstr_quoted`).
-/

namespace Wire

open List

/-! ## `strstr` -/

/-- The text from the first occurrence of the needle on. -/
def strstr (needle : List Char) : List Char → Option (List Char)
  | [] => if needle = [] then some [] else none
  | c :: text => if needle.isPrefixOf (c :: text) then some (c :: text) else strstr needle text

def quote (word : List Char) : List Char := '"' :: (word ++ ['"'])

/-- A needle that begins with a quote is not found before one. -/
theorem strstr_append (needle : List Char) {a : List Char} (ha : '"' ∉ a) (text : List Char) :
    strstr ('"' :: needle) (a ++ text) = strstr ('"' :: needle) text := by
  induction a with
  | nil => rfl
  | cons c a ih =>
    have hc : c ≠ '"' := fun h => ha (h ▸ mem_cons_self)
    have hnot : ('"' :: needle).isPrefixOf (c :: (a ++ text)) = false := by
      simp [List.isPrefixOf, hc.symm]
    rw [cons_append, strstr, hnot, if_neg Bool.false_ne_true]
    exact ih fun h => ha (mem_cons_of_mem _ h)

/-- Two words without quotes that end with one are equal when one is the start of the other. -/
theorem isPrefixOf_quoted {word piece : List Char} (hw : '"' ∉ word) (hp : '"' ∉ piece) (text : List Char) :
    (word ++ ['"']).isPrefixOf (piece ++ '"' :: text) = true ↔ piece = word := by
  induction word generalizing piece with
  | nil =>
    cases piece with
    | nil => simp [List.isPrefixOf]
    | cons c piece =>
      have hc : c ≠ '"' := fun h => hp (h ▸ mem_cons_self)
      simp [List.isPrefixOf, hc.symm]
  | cons d word ih =>
    have hd : d ≠ '"' := fun h => hw (h ▸ mem_cons_self)
    have hw' : '"' ∉ word := fun h => hw (mem_cons_of_mem _ h)
    cases piece with
    | nil => simp [List.isPrefixOf, hd]
    | cons c piece =>
      have hp' : '"' ∉ piece := fun h => hp (mem_cons_of_mem _ h)
      simp only [cons_append, List.isPrefixOf, Bool.and_eq_true, beq_iff_eq, List.cons.injEq, ih hw' hp']
      constructor
      · rintro ⟨rfl, rfl⟩
        exact ⟨rfl, rfl⟩
      · rintro ⟨rfl, rfl⟩
        exact ⟨rfl, rfl⟩

/-- The quoted word is found at the first pair of quotes, or after it. -/
theorem strstr_quoted {word piece : List Char} (hw : '"' ∉ word) (hp : '"' ∉ piece) (text : List Char) :
    strstr (quote word) ('"' :: (piece ++ '"' :: text)) =
      if piece = word then some (quote word ++ text) else strstr (quote word) ('"' :: text) := by
  unfold quote
  rw [strstr]
  have hhead : ('"' :: (word ++ ['"'])).isPrefixOf ('"' :: (piece ++ '"' :: text)) =
      (word ++ ['"']).isPrefixOf (piece ++ '"' :: text) := by
    simp [List.isPrefixOf]
  rw [hhead]
  by_cases h : piece = word
  · rw [if_pos ((isPrefixOf_quoted hw hp text).mpr h), if_pos h, h]
    simp
  · rw [if_neg fun ht => h ((isPrefixOf_quoted hw hp text).mp ht), if_neg h, strstr_append _ hp]

/-! ## `strtol` -/

def isSpace (c : Char) : Bool := c.toNat = 32 || (9 ≤ c.toNat && c.toNat ≤ 13)

def decimal (digits : List Char) : Nat := digits.foldl (fun n c => 10 * n + (c.toNat - 48)) 0

/-- The number at the start of the text, and the rest; none without a digit, or out of the range of a `long`. -/
def strtol (text : List Char) : Option (Int × List Char) :=
  let text := text.dropWhile isSpace
  let negative := text.head? = some '-'
  let text := if text.head? = some '-' ∨ text.head? = some '+' then text.tail else text
  let digits := text.takeWhile Char.isDigit
  let value : Int := if negative then -decimal digits else decimal digits
  if digits = [] ∨ value < -2 ^ 63 ∨ 2 ^ 63 ≤ value then none else some (value, text.dropWhile Char.isDigit)

theorem isDigit_bounds {c : Char} (h : c.isDigit = true) : 48 ≤ c.toNat ∧ c.toNat ≤ 57 := by
  simp only [Char.isDigit, Bool.and_eq_true, decide_eq_true_eq] at h
  exact ⟨h.1, h.2⟩

/-- Digits are read as their number, up to what follows them. -/
theorem strtol_digits (text : List Char) {d : Char} {digits : List Char} (hd : ∀ c ∈ d :: digits, c.isDigit = true)
    (hsmall : decimal (d :: digits) < 2 ^ 63) (htext : (text.head?.all fun c => !c.isDigit) = true) :
    strtol (d :: digits ++ text) = some ((decimal (d :: digits) : Int), text) := by
  have hfirst := isDigit_bounds (hd d mem_cons_self)
  have hspace : isSpace d = false := by
    unfold isSpace
    simp only [Bool.or_eq_false_iff, Bool.and_eq_false_iff, decide_eq_false_iff_not]
    omega
  have hminus : d ≠ '-' := by
    rintro rfl
    revert hfirst
    decide
  have hplus : d ≠ '+' := by
    rintro rfl
    revert hfirst
    decide
  have hstart : (d :: digits ++ text).dropWhile isSpace = d :: digits ++ text := by
    rw [cons_append, dropWhile_cons, hspace, if_neg Bool.false_ne_true]
  have htake : (d :: digits ++ text).takeWhile Char.isDigit = d :: digits := by
    rw [takeWhile_append_of_pos hd]
    cases text with
    | nil => simp
    | cons c text =>
      have hc : c.isDigit = false := by simpa using htext
      simp [hc]
  have hdrop : (d :: digits ++ text).dropWhile Char.isDigit = text := by
    rw [dropWhile_append_of_pos hd]
    cases text with
    | nil => rfl
    | cons c text =>
      have hc : c.isDigit = false := by simpa using htext
      simp [hc]
  have hsign : (d :: digits ++ text).head? = some d := rfl
  unfold strtol
  simp only [hstart, hsign, Option.some.injEq, hminus, hplus, or_self, if_false, htake, hdrop]
  rw [if_neg]
  rintro (h | h | h)
  · cases h
  · omega
  · omega

end Wire
