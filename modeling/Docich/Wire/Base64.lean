import Docich.Plain

/-!
# Base64

The encoding of bytes with padding, its alphabet and its length, and a decoder that undoes it.
-/

namespace Wire

abbrev Byte := Fin 256

/-- The character of a group of six bits. -/
def base64Char (n : Nat) : Char :=
  if n < 26 then Char.ofNat (65 + n)
  else if n < 52 then Char.ofNat (71 + n)
  else if n < 62 then Char.ofNat (n - 4)
  else if n = 62 then '+'
  else '/'

def base64 : List Byte → List Char
  | [] => []
  | [a] => [base64Char (a / 4), base64Char (a % 4 * 16), '=', '=']
  | [a, b] => [base64Char (a / 4), base64Char (a % 4 * 16 + b / 16), base64Char (b % 16 * 4), '=']
  | a :: b :: c :: rest =>
    base64Char (a / 4) :: base64Char (a % 4 * 16 + b / 16) :: base64Char (b % 16 * 4 + c / 64) ::
      base64Char (c % 64) :: base64 rest

/-- Letters, digits and three more characters. -/
def isBase64 (c : Char) : Bool := c.isAlphanum || c = '+' || c = '/' || c = '='

theorem isBase64_char (n : Nat) : isBase64 (base64Char n) = true := by
  by_cases h : n < 64
  · have hall : ∀ m : Fin 64, isBase64 (base64Char m) = true := by decide
    exact hall ⟨n, h⟩
  · unfold base64Char
    rw [if_neg (by omega), if_neg (by omega), if_neg (by omega), if_neg (by omega)]
    rfl

theorem mem_base64 (bytes : List Byte) : ∀ c ∈ base64 bytes, isBase64 c = true := by
  induction bytes using base64.induct with
  | case1 => exact fun c hc => nomatch hc
  | case2 a =>
    simp only [base64, List.forall_mem_cons, isBase64_char, true_and]
    simp [isBase64]
  | case3 a b =>
    simp only [base64, List.forall_mem_cons, isBase64_char, true_and]
    simp [isBase64]
  | case4 a b c rest ih =>
    simp only [base64, List.forall_mem_cons, isBase64_char, true_and]
    exact ih

theorem length_base64 (bytes : List Byte) : (base64 bytes).length = 4 * ((bytes.length + 2) / 3) := by
  induction bytes using base64.induct with
  | case1 => rfl
  | case2 a => simp [base64]
  | case3 a b => simp [base64]
  | case4 a b c rest ih =>
    simp only [base64, List.length_cons, ih]
    omega

/-! ## The way back -/

/-- The six bits of a character. -/
def base64Value (c : Char) : Nat :=
  if c.isUpper then c.toNat - 65
  else if c.isLower then c.toNat - 71
  else if c.isDigit then c.toNat + 4
  else if c = '+' then 62
  else 63

theorem base64Value_char {n : Nat} (h : n < 64) : base64Value (base64Char n) = n := by
  have hall : ∀ m : Fin 64, base64Value (base64Char m) = m := by decide
  exact hall ⟨n, h⟩

theorem base64Char_ne_pad {n : Nat} (h : n < 64) : base64Char n ≠ '=' := by
  have hall : ∀ m : Fin 64, base64Char m ≠ '=' := by decide
  exact hall ⟨n, h⟩

def unbase64 : List Char → List Byte
  | w :: x :: y :: z :: rest =>
    let a := Fin.ofNat 256 (base64Value w * 4 + base64Value x / 16)
    let b := Fin.ofNat 256 (base64Value x % 16 * 16 + base64Value y / 4)
    let c := Fin.ofNat 256 (base64Value y % 4 * 64 + base64Value z)
    if y = '=' then [a] else if z = '=' then [a, b] else a :: b :: c :: unbase64 rest
  | _ => []

theorem unbase64_base64 (bytes : List Byte) : unbase64 (base64 bytes) = bytes := by
  induction bytes using base64.induct with
  | case1 => rfl
  | case2 a =>
    simp only [base64, unbase64, if_pos]
    rw [base64Value_char (by omega), base64Value_char (by omega)]
    congr 1
    apply Fin.ext
    simp only [Fin.ofNat]
    omega
  | case3 a b =>
    simp only [base64, unbase64, if_neg (base64Char_ne_pad (n := b % 16 * 4) (by omega)), if_pos]
    rw [base64Value_char (by omega), base64Value_char (by omega), base64Value_char (by omega)]
    congr 1
    · apply Fin.ext
      simp only [Fin.ofNat]
      omega
    · congr 1
      apply Fin.ext
      simp only [Fin.ofNat]
      omega
  | case4 a b c rest ih =>
    simp only [base64, unbase64, if_neg (base64Char_ne_pad (n := b % 16 * 4 + c / 64) (by omega)),
      if_neg (base64Char_ne_pad (n := c % 64) (by omega)), ih]
    rw [base64Value_char (by omega), base64Value_char (by omega), base64Value_char (by omega),
      base64Value_char (by omega)]
    congr 1
    · apply Fin.ext
      simp only [Fin.ofNat]
      omega
    · congr 1
      · apply Fin.ext
        simp only [Fin.ofNat]
        omega
      · congr 1
        apply Fin.ext
        simp only [Fin.ofNat]
        omega

end Wire
