import Mathlib.Data.List.Basic

/-!
# UTF-8

- `encode`: the bytes of a text;
- `decode`: the text of these bytes, when each character is written in the only way that is allowed;
- `decode_encode`: what was encoded is decoded;
- `decodeReplace`: the code points of any bytes, where what is no character is replaced.
-/

namespace Wire.Utf8

open List

def encodeChar (c : Char) : List ℕ :=
  let n := c.toNat
  if n < 0x80 then [n]
  else if n < 0x800 then [0xc0 + n / 64, 0x80 + n % 64]
  else if n < 0x10000 then [0xe0 + n / 4096, 0x80 + n / 64 % 64, 0x80 + n % 64]
  else [0xf0 + n / 262144, 0x80 + n / 4096 % 64, 0x80 + n / 64 % 64, 0x80 + n % 64]

def encode (text : List Char) : List ℕ := text.flatMap encodeChar

/-- A byte that goes on with a character. -/
def isTail (b : ℕ) : Bool := 0x80 ≤ b && b < 0xc0

/-- A code point that is a character, and at least this. -/
def isChar (least n : ℕ) : Bool := least ≤ n && (n < 0xd800 || (0xe000 ≤ n && n < 0x110000))

def decode : List ℕ → Option (List Char)
  | [] => some []
  | a :: rest =>
    if a < 0x80 then (decode rest).map (Char.ofNat a :: ·)
    else match rest with
      | [] => none
      | b :: rest =>
        if ¬ isTail b then none
        else if 0xc0 ≤ a ∧ a < 0xe0 then
          let n := (a - 0xc0) * 64 + (b - 0x80)
          if isChar 0x80 n then (decode rest).map (Char.ofNat n :: ·) else none
        else match rest with
          | [] => none
          | c :: rest =>
            if ¬ isTail c then none
            else if 0xe0 ≤ a ∧ a < 0xf0 then
              let n := (a - 0xe0) * 4096 + (b - 0x80) * 64 + (c - 0x80)
              if isChar 0x800 n then (decode rest).map (Char.ofNat n :: ·) else none
            else match rest with
              | [] => none
              | d :: rest =>
                if ¬ isTail d then none
                else if 0xf0 ≤ a ∧ a < 0xf8 then
                  let n := (a - 0xf0) * 262144 + (b - 0x80) * 4096 + (c - 0x80) * 64 + (d - 0x80)
                  if isChar 0x10000 n then (decode rest).map (Char.ofNat n :: ·) else none
                else none

theorem isChar_toNat (c : Char) {least : ℕ} (h : least ≤ c.toNat) : isChar least c.toNat = true := by
  have hvalid : c.toNat < 0xd800 ∨ 0xdfff < c.toNat ∧ c.toNat < 0x110000 := c.valid
  simp only [isChar, Bool.and_eq_true, Bool.or_eq_true, decide_eq_true_eq]
  omega

theorem isTail_mod (n : ℕ) : isTail (0x80 + n % 64) = true := by
  simp only [isTail, Bool.and_eq_true, decide_eq_true_eq]
  omega

theorem decode_encodeChar (c : Char) (rest : List ℕ) :
    decode (encodeChar c ++ rest) = (decode rest).map (c :: ·) := by
  have hlt : c.toNat < 0x110000 := by
    rcases c.valid with h | h
    · exact Nat.lt_trans h (by decide)
    · exact h.2
  simp only [encodeChar]
  split
  · next h =>
    rw [singleton_append]
    conv_lhs => unfold decode
    rw [if_pos h, Char.ofNat_toNat]
  · split
    · next h =>
      have hn : (0xc0 + c.toNat / 64 - 0xc0) * 64 + (0x80 + c.toNat % 64 - 0x80) = c.toNat := by omega
      simp only [cons_append, nil_append]
      conv_lhs => unfold decode
      simp only [isTail_mod, hn, isChar_toNat c (by omega : 0x80 ≤ c.toNat),
        Char.ofNat_toNat, not_true_eq_false, if_false, if_true]
      rw [if_neg (by omega), if_pos (by omega)]
    · split
      · next h =>
        have hn : (0xe0 + c.toNat / 4096 - 0xe0) * 4096 + (0x80 + c.toNat / 64 % 64 - 0x80) * 64 +
            (0x80 + c.toNat % 64 - 0x80) = c.toNat := by omega
        simp only [cons_append, nil_append]
        conv_lhs => unfold decode
        simp only [isTail_mod, hn, isChar_toNat c (by omega : 0x800 ≤ c.toNat),
          Char.ofNat_toNat, not_true_eq_false, if_false, if_true]
        rw [if_neg (by omega), if_neg (by omega), if_pos (by omega)]
      · have hn : (0xf0 + c.toNat / 262144 - 0xf0) * 262144 + (0x80 + c.toNat / 4096 % 64 - 0x80) * 4096 +
            (0x80 + c.toNat / 64 % 64 - 0x80) * 64 + (0x80 + c.toNat % 64 - 0x80) = c.toNat := by omega
        simp only [cons_append, nil_append]
        conv_lhs => unfold decode
        simp only [isTail_mod, hn,
          isChar_toNat c (by omega : 0x10000 ≤ c.toNat), Char.ofNat_toNat, not_true_eq_false, if_false, if_true]
        rw [if_neg (by omega), if_neg (by omega), if_neg (by omega), if_pos (by omega)]

/-- What was encoded is decoded. -/
theorem decode_encode (text : List Char) : decode (encode text) = some text := by
  induction text with
  | nil => rfl
  | cons c text ih =>
    rw [encode, flatMap_cons, ← encode, decode_encodeChar, ih]
    rfl

/-- A byte below 0x80 is a character of its own. -/
theorem mem_encode {text : List Char} {b : ℕ} (hb : b ∈ encode text) (hlow : b < 0x80) : Char.ofNat b ∈ text := by
  obtain ⟨c, hc, hb⟩ := mem_flatMap.mp hb
  have : b = c.toNat := by
    simp only [encodeChar] at hb
    split at hb
    · exact mem_singleton.mp hb
    · split at hb
      · simp only [mem_cons, not_mem_nil, or_false] at hb
        omega
      · split at hb
        · simp only [mem_cons, not_mem_nil, or_false] at hb
          omega
        · simp only [mem_cons, not_mem_nil, or_false] at hb
          omega
  rw [this, Char.ofNat_toNat]
  exact hc

/-- A second byte that may follow this first byte. -/
def isSecond (a b : ℕ) : Bool :=
  isTail b && (a ≠ 0xe0 || 0xa0 ≤ b) && (a ≠ 0xed || b < 0xa0) && (a ≠ 0xf0 || 0x90 ≤ b) && (a ≠ 0xf4 || b < 0x90)

/-- The code point that begins with a byte, and how many of the next bytes belong to it. The longest part that could have
begun a character is replaced by one code point, and so is a byte that begins none. -/
def replaceOne (a : ℕ) (rest : List ℕ) : ℕ × ℕ :=
  if a < 0x80 then (a, 0)
  else if a < 0xc2 ∨ 0xf5 ≤ a then (0xfffd, 0)
  else match rest with
    | [] => (0xfffd, 0)
    | b :: rest =>
      if ¬ isSecond a b then (0xfffd, 0)
      else if a < 0xe0 then ((a - 0xc0) * 64 + (b - 0x80), 1)
      else match rest with
        | [] => (0xfffd, 1)
        | c :: rest =>
          if ¬ isTail c then (0xfffd, 1)
          else if a < 0xf0 then ((a - 0xe0) * 4096 + (b - 0x80) * 64 + (c - 0x80), 2)
          else match rest with
            | [] => (0xfffd, 2)
            | d :: _ =>
              if ¬ isTail d then (0xfffd, 2)
              else ((a - 0xf0) * 262144 + (b - 0x80) * 4096 + (c - 0x80) * 64 + (d - 0x80), 3)

def replaceFrom : ℕ → List ℕ → List ℕ
  | _, [] => []
  | n + 1, _ :: rest => replaceFrom n rest
  | 0, a :: rest => (replaceOne a rest).1 :: replaceFrom (replaceOne a rest).2 rest

def decodeReplace (bytes : List ℕ) : List ℕ := replaceFrom 0 bytes

theorem replaceOne_le (a : ℕ) (rest : List ℕ) : (replaceOne a rest).2 ≤ 3 := by
  fun_cases replaceOne a rest
  all_goals simp

theorem length_replaceFrom (n : ℕ) (bytes : List ℕ) : bytes.length ≤ 4 * (replaceFrom n bytes).length + n := by
  fun_induction replaceFrom n bytes with
  | case1 n => simp
  | case2 n b rest ih =>
    rw [length_cons]
    omega
  | case3 a rest ih =>
    have hle := replaceOne_le a rest
    simp only [length_cons]
    omega

/-- A code point stands for at most four bytes. -/
theorem length_decodeReplace (bytes : List ℕ) : bytes.length ≤ 4 * (decodeReplace bytes).length := length_replaceFrom 0 bytes

end Wire.Utf8
