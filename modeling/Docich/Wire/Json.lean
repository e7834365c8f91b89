import Docich.Plain

/-!
# JSON texts

- `Json.dumps`: the text of a value, in which only quotes, backslashes and control characters are escaped;
- `loads`: the value of a text;
- `loads_dumps`: a text that was written is read back.

An object is the list of its fields, each key once. A number with a fraction or an exponent is the text of its token.
-/

namespace Wire

open List Option

/-! ## Values -/

inductive Json
  | null
  | bool (b : Bool)
  | int (n : ℤ)
  | float (text : List Char)
  | string (s : List Char)
  | array (items : List Json)
  | object (fields : List (List Char × Json))

/-- A dictionary, each key once. -/
abbrev Dict := List (List Char × Json)

def Dict.get (d : Dict) (key : List Char) : Option Json := (d.find? fun f => f.1 = key).map Prod.snd

/-- What `or` passes over. -/
def isFalsy : Json → Bool
  | .null | .bool false | .int 0 | .string [] | .array [] | .object [] => true
  | .float text => (text.takeWhile fun c => c ≠ 'e' && c ≠ 'E').all fun c => c = '-' || c = '0' || c = '.'
  | _ => false

/-! ## Writing -/

/-- What stands between the items, and between a key and its value. -/
structure Separators where
  comma : List Char
  colon : List Char

def hexDigit (n : ℕ) : Char := if n < 10 then Char.ofNat (48 + n) else Char.ofNat (87 + n)

def escape (c : Char) : List Char :=
  if c = '"' then ['\\', '"']
  else if c = '\\' then ['\\', '\\']
  else if c = '\n' then ['\\', 'n']
  else if c = '\r' then ['\\', 'r']
  else if c = '\t' then ['\\', 't']
  else if c.toNat = 8 then ['\\', 'b']
  else if c.toNat = 12 then ['\\', 'f']
  else if c.toNat < 0x20 then ['\\', 'u', '0', '0', hexDigit (c.toNat / 16), hexDigit (c.toNat % 16)]
  else [c]

def quoted (s : List Char) : List Char := '"' :: (s.flatMap escape ++ ['"'])

def digitsOf (n : ℕ) : List Char := Nat.toDigits 10 n

def intText : ℤ → List Char
  | .ofNat n => digitsOf n
  | .negSucc n => '-' :: digitsOf (n + 1)

mutual

/-- The text of a value. -/
def Json.dumps (sep : Separators) : Json → List Char
  | .null => ['n', 'u', 'l', 'l']
  | .bool true => ['t', 'r', 'u', 'e']
  | .bool false => ['f', 'a', 'l', 's', 'e']
  | .int n => intText n
  | .float text => text
  | .string s => quoted s
  | .array items => '[' :: (dumpsItems sep items ++ [']'])
  | .object fields => '{' :: (dumpsFields sep fields ++ ['}'])

def dumpsItems (sep : Separators) : List Json → List Char
  | [] => []
  | [x] => x.dumps sep
  | x :: y :: rest => x.dumps sep ++ sep.comma ++ dumpsItems sep (y :: rest)

def dumpsFields (sep : Separators) : List (List Char × Json) → List Char
  | [] => []
  | [(key, x)] => quoted key ++ sep.colon ++ x.dumps sep
  | (key, x) :: y :: rest => quoted key ++ sep.colon ++ x.dumps sep ++ sep.comma ++ dumpsFields sep (y :: rest)

end

/-! ## Reading -/

def isBlank (c : Char) : Bool := c = ' ' || c = '\t' || c = '\n' || c = '\r'

def skip (text : List Char) : List Char := text.dropWhile isBlank

def hexValue (c : Char) : Option ℕ :=
  if '0' ≤ c ∧ c ≤ '9' then some (c.toNat - 48)
  else if 'a' ≤ c ∧ c ≤ 'f' then some (c.toNat - 87)
  else if 'A' ≤ c ∧ c ≤ 'F' then some (c.toNat - 55)
  else none

/-- Four hexadecimal digits. -/
def hex4 : List Char → Option (ℕ × List Char)
  | a :: b :: c :: d :: rest => do
    let a ← hexValue a
    let b ← hexValue b
    let c ← hexValue c
    let d ← hexValue d
    some (((a * 16 + b) * 16 + c) * 16 + d, rest)
  | _ => none

/-- A code point written with `\u`, or a pair of surrogates; a surrogate alone is no character. -/
def unicodeEscape (text : List Char) : Option (Char × List Char) := do
  let (n, rest) ← hex4 text
  if 0xd800 ≤ n ∧ n ≤ 0xdbff then
    match rest with
    | '\\' :: 'u' :: rest => do
      let (m, rest) ← hex4 rest
      if 0xdc00 ≤ m ∧ m ≤ 0xdfff then some (Char.ofNat (0x10000 + (n - 0xd800) * 0x400 + (m - 0xdc00)), rest) else none
    | _ => none
  else if 0xdc00 ≤ n ∧ n ≤ 0xdfff then none
  else some (Char.ofNat n, rest)

/-- The character of an escape sequence, after the backslash. -/
def unescape : List Char → Option (Char × List Char)
  | '"' :: rest => some ('"', rest)
  | '\\' :: rest => some ('\\', rest)
  | '/' :: rest => some ('/', rest)
  | 'b' :: rest => some (Char.ofNat 8, rest)
  | 'f' :: rest => some (Char.ofNat 12, rest)
  | 'n' :: rest => some ('\n', rest)
  | 'r' :: rest => some ('\r', rest)
  | 't' :: rest => some ('\t', rest)
  | 'u' :: rest => unicodeEscape rest
  | _ => none

/-- The rest of a string, up to its closing quote. -/
def readString : ℕ → List Char → Option (List Char × List Char)
  | 0, _ => none
  | n + 1, text =>
    match text with
    | [] => none
    | '"' :: rest => some ([], rest)
    | '\\' :: rest => do
      let (c, rest) ← unescape rest
      let (s, rest) ← readString n rest
      some (c :: s, rest)
    | c :: rest =>
      if c.toNat < 0x20 then none
      else do
        let (s, rest) ← readString n rest
        some (c :: s, rest)

def isNumeral (c : Char) : Bool := '0' ≤ c && c ≤ '9'

def valueOf (digits : List Char) : ℕ := digits.foldl (fun n c => 10 * n + (c.toNat - 48)) 0

/-- The digits before the point. -/
def wholePart : List Char → List Char
  | '0' :: _ => ['0']
  | text => text.takeWhile isNumeral

def fractionPart : List Char → List Char
  | '.' :: text => if text.takeWhile isNumeral = [] then [] else '.' :: text.takeWhile isNumeral
  | _ => []

def exponentPart : List Char → List Char
  | e :: text =>
    if e = 'e' ∨ e = 'E' then
      let sign := match text with
        | '+' :: _ => ['+']
        | '-' :: _ => ['-']
        | _ => []
      let digits := (text.drop sign.length).takeWhile isNumeral
      if digits = [] then [] else e :: (sign ++ digits)
    else []
  | [] => []

/-- A number without its sign. -/
def readUnsigned (negative : Bool) (text : List Char) : Option (Json × List Char) :=
  let whole := wholePart text
  if whole = [] then none
  else
    let rest := text.drop whole.length
    let fraction := fractionPart rest
    let exponent := exponentPart (rest.drop fraction.length)
    let rest := rest.drop (fraction.length + exponent.length)
    if fraction = [] ∧ exponent = [] then some (.int (if negative then -valueOf whole else valueOf whole), rest)
    else some (.float ((if negative then ['-'] else []) ++ whole ++ fraction ++ exponent), rest)

def readNumber : List Char → Option (Json × List Char)
  | '-' :: text => readUnsigned true text
  | text => readUnsigned false text

def infinity : List Char := ['I', 'n', 'f', 'i', 'n', 'i', 't', 'y']

/-- A word, or a number. -/
def readPlain (text : List Char) : Option (Json × List Char) :=
  if ['n', 'u', 'l', 'l'].isPrefixOf text then some (.null, text.drop 4)
  else if ['t', 'r', 'u', 'e'].isPrefixOf text then some (.bool true, text.drop 4)
  else if ['f', 'a', 'l', 's', 'e'].isPrefixOf text then some (.bool false, text.drop 5)
  else if ['N', 'a', 'N'].isPrefixOf text then some (.float ['N', 'a', 'N'], text.drop 3)
  else if infinity.isPrefixOf text then some (.float infinity, text.drop 8)
  else if ('-' :: infinity).isPrefixOf text then some (.float ('-' :: infinity), text.drop 9)
  else readNumber text

/-- A field that is read later replaces the value of its key. -/
def putField (key : List Char) (x : Json) : List (List Char × Json) → List (List Char × Json)
  | [] => [(key, x)]
  | (k, y) :: rest => if k = key then (k, x) :: rest else (k, y) :: putField key x rest

def dictOf (fields : List (List Char × Json)) : List (List Char × Json) :=
  fields.foldl (fun d f => putField f.1 f.2 d) []

mutual

def readValue : ℕ → List Char → Option (Json × List Char)
  | 0, _ => none
  | n + 1, text =>
    match text with
    | '"' :: rest => (readString n rest).map fun r => (.string r.1, r.2)
    | '[' :: rest =>
      match skip rest with
      | ']' :: rest => some (.array [], rest)
      | rest => (readItems n rest).map fun r => (.array r.1, r.2)
    | '{' :: rest =>
      match skip rest with
      | '}' :: rest => some (.object [], rest)
      | rest => (readFields n rest).map fun r => (.object (dictOf r.1), r.2)
    | text => readPlain text

def readItems : ℕ → List Char → Option (List Json × List Char)
  | 0, _ => none
  | n + 1, text =>
    match readValue n text with
    | none => none
    | some (x, rest) =>
      match skip rest with
      | ',' :: rest => (readItems n (skip rest)).map fun r => (x :: r.1, r.2)
      | ']' :: rest => some ([x], rest)
      | _ => none

def readFields : ℕ → List Char → Option (List (List Char × Json) × List Char)
  | 0, _ => none
  | n + 1, text =>
    match text with
    | '"' :: rest =>
      match readString n rest with
      | none => none
      | some (key, rest) =>
        match skip rest with
        | ':' :: rest =>
          match readValue n (skip rest) with
          | none => none
          | some (x, rest) =>
            match skip rest with
            | ',' :: rest => (readFields n (skip rest)).map fun r => ((key, x) :: r.1, r.2)
            | '}' :: rest => some ([(key, x)], rest)
            | _ => none
        | _ => none
    | _ => none

end

/-- The value of a text; none when it is not JSON. -/
def loads (text : List Char) : Option Json :=
  match readValue (text.length + 1) (skip text) with
  | some (x, rest) => if skip rest = [] then some x else none
  | none => none

/-! ## Numbers -/

/-- What may stand after a number. -/
def Follows (rest : List Char) : Prop := ∀ c t, rest = c :: t → isNumeral c = false ∧ c ≠ '.' ∧ c ≠ 'e' ∧ c ≠ 'E'

variable {c : Char} {t token : List Char} {n : ℕ} {x : Json} {fields : List (List Char × Json)}

theorem follows_cons (h : isNumeral c = false) (hp : c ≠ '.') (he : c ≠ 'e') (hE : c ≠ 'E') :
    Follows (c :: t) := by
  rintro c' t' ⟨⟩
  exact ⟨h, hp, he, hE⟩

theorem digitsOf_small (h : n < 10) : digitsOf n = [Nat.digitChar n] := Nat.toDigits_of_lt_base h

theorem digitsOf_step (h : 10 ≤ n) : digitsOf n = digitsOf (n / 10) ++ [Nat.digitChar (n % 10)] := by
  have hlast := Nat.toDigits_of_lt_base (Nat.mod_lt n (by decide : 10 > 0))
  have hjoin := Nat.toDigits_append_toDigits (b := 10) (n := n / 10) (d := n % 10) (by decide) (by omega) (by omega)
  rw [hlast, Nat.div_add_mod] at hjoin
  exact hjoin.symm

theorem isNumeral_digitChar : ∀ n < 10, isNumeral (Nat.digitChar n) = true := by decide

theorem digitChar_value : ∀ n < 10, (Nat.digitChar n).toNat - 48 = n := by decide

theorem digitChar_ne_zero : ∀ n < 10, n ≠ 0 → Nat.digitChar n ≠ '0' := by decide

theorem isNumeral_digitsOf (n : ℕ) : ∀ c ∈ digitsOf n, isNumeral c = true := by
  induction n using Nat.strongRecOn with
  | ind n ih =>
    by_cases h : n < 10
    · rw [digitsOf_small h]
      simpa using isNumeral_digitChar n h
    · rw [digitsOf_step (by omega)]
      simp only [mem_append, mem_singleton]
      rintro c (hc | rfl)
      · exact ih _ (by omega) c hc
      · exact isNumeral_digitChar _ (by omega)

theorem valueOf_digitsOf (n : ℕ) : valueOf (digitsOf n) = n := by
  induction n using Nat.strongRecOn with
  | ind n ih =>
    by_cases h : n < 10
    · rw [digitsOf_small h]
      simp [valueOf, digitChar_value n h]
    · have hinit := ih (n / 10) (by omega)
      rw [digitsOf_step (by omega)]
      unfold valueOf at hinit ⊢
      rw [foldl_append, hinit, foldl_cons, foldl_nil, digitChar_value _ (by omega)]
      omega

/-- Zero has one digit; another number does not begin with zero. -/
theorem digitsOf_head (n : ℕ) : digitsOf n = ['0'] ∨ ∃ c t, digitsOf n = c :: t ∧ c ≠ '0' := by
  induction n using Nat.strongRecOn with
  | ind n ih =>
    by_cases h : n < 10
    · rw [digitsOf_small h]
      by_cases h0 : n = 0
      · subst h0
        exact .inl rfl
      · exact .inr ⟨_, _, rfl, digitChar_ne_zero n h h0⟩
    · rw [digitsOf_step (by omega)]
      rcases ih (n / 10) (by omega) with hz | ⟨c, t, he, hc⟩
      · have hv := valueOf_digitsOf (n / 10)
        rw [hz] at hv
        simp only [valueOf, foldl_cons, foldl_nil] at hv
        have : n / 10 = 0 := hv.symm
        omega
      · exact .inr ⟨c, t ++ [Nat.digitChar (n % 10)], by rw [he]; rfl, hc⟩

variable {rest text : List Char}

theorem takeWhile_numeral {digits : List Char} (hd : ∀ c ∈ digits, isNumeral c = true) (hr : Follows rest) :
    (digits ++ rest).takeWhile isNumeral = digits := by
  rw [takeWhile_append_of_pos hd]
  cases rest with
  | nil => simp
  | cons c t => simp [(hr c t rfl).1]

theorem wholePart_digitsOf (n : ℕ) (hr : Follows rest) : wholePart (digitsOf n ++ rest) = digitsOf n := by
  rcases digitsOf_head n with hz | ⟨c, t, he, hc⟩
  · rw [hz]
    rfl
  · have htake := takeWhile_numeral (isNumeral_digitsOf n) hr
    rw [he] at htake ⊢
    rw [cons_append] at htake ⊢
    unfold wholePart
    split
    · next heq =>
      cases heq
      exact absurd rfl hc
    · exact htake

theorem readUnsigned_digitsOf (negative : Bool) (n : ℕ) (hr : Follows rest) :
    readUnsigned negative (digitsOf n ++ rest) = some (.int (if negative then -n else n), rest) := by
  have hne : digitsOf n ≠ [] := by
    rcases digitsOf_head n with h | ⟨c, t, h, -⟩ <;> simp [h]
  have hfraction : fractionPart rest = [] := by
    cases rest with
    | nil => rfl
    | cons c t =>
      unfold fractionPart
      split
      · next heq =>
        cases heq
        exact absurd rfl (hr _ _ rfl).2.1
      · rfl
  have hexponent : exponentPart rest = [] := by
    cases rest with
    | nil => rfl
    | cons c t =>
      obtain ⟨-, -, he, hE⟩ := hr c t rfl
      simp [exponentPart, he, hE]
  unfold readUnsigned
  simp only [wholePart_digitsOf n hr, hne, if_false, drop_left, hfraction, length_nil, drop_zero, hexponent,
    and_self, if_true, valueOf_digitsOf, Nat.add_zero]

/-! ## Strings -/

theorem hexValue_hexDigit : ∀ n < 16, hexValue (hexDigit n) = some n := by decide

/-- A character is written as itself, or as an escape sequence that is read back. -/
theorem escape_cases (c : Char) :
    (escape c = [c] ∧ c ≠ '"' ∧ c ≠ '\\' ∧ ¬ c.toNat < 0x20) ∨
      ∃ e, escape c = '\\' :: e ∧ ∀ rest, unescape (e ++ rest) = some (c, rest) := by
  have hself : Char.ofNat c.toNat = c := Char.ofNat_toNat c
  unfold escape
  split
  · next h =>
    subst h
    exact .inr ⟨_, rfl, fun rest => rfl⟩
  · split
    · next h =>
      subst h
      exact .inr ⟨_, rfl, fun rest => rfl⟩
    · split
      · next h => exact .inr ⟨_, rfl, fun rest => h ▸ rfl⟩
      · split
        · next h => exact .inr ⟨_, rfl, fun rest => h ▸ rfl⟩
        · split
          · next h => exact .inr ⟨_, rfl, fun rest => h ▸ rfl⟩
          · split
            · next h =>
              rw [h] at hself
              exact .inr ⟨_, rfl, fun rest => by rw [← hself]; rfl⟩
            · split
              · next h =>
                rw [h] at hself
                exact .inr ⟨_, rfl, fun rest => by rw [← hself]; rfl⟩
              · split
                · next h =>
                  refine .inr ⟨_, rfl, fun rest => ?_⟩
                  have hhigh := hexValue_hexDigit (c.toNat / 16) (by omega)
                  have hlow := hexValue_hexDigit (c.toNat % 16) (by omega)
                  have hzero : hexValue '0' = some 0 := by decide
                  have hsum : ((0 * 16 + 0) * 16 + c.toNat / 16) * 16 + c.toNat % 16 = c.toNat := by omega
                  simp only [cons_append, nil_append, unescape, unicodeEscape, hex4, hzero, hhigh, hlow, hsum,
                    bind_eq_bind, bind_some, hself]
                  rw [if_neg (by omega), if_neg (by omega)]
                · next h1 h2 h3 h4 h5 h6 h7 h8 => exact .inl ⟨rfl, h1, h2, h8⟩

theorem readString_escaped (s : List Char) (hn : (s.flatMap escape).length < n) :
    readString n (s.flatMap escape ++ '"' :: rest) = some (s, rest) := by
  induction s generalizing n with
  | nil =>
    cases n with
    | zero => cases hn
    | succ n => rfl
  | cons c s ih =>
    cases n with
    | zero => cases hn
    | succ n =>
      rw [flatMap_cons, length_append] at hn
      rw [flatMap_cons, append_assoc]
      rcases escape_cases c with ⟨he, hquote, hback, hcontrol⟩ | ⟨e, he, hread⟩
      · rw [he] at hn ⊢
        have hrest := ih (n := n) (by simp only [length_cons, length_nil] at hn; omega)
        simp only [cons_append, nil_append]
        unfold readString
        split
        · next heq => cases heq
        · next heq =>
          cases heq
          exact absurd rfl hquote
        · next heq =>
          cases heq
          exact absurd rfl hback
        · next heq =>
          cases heq
          rw [if_neg hcontrol, hrest]
          rfl
      · rw [he] at hn ⊢
        have hrest := ih (n := n) (by simp only [length_cons] at hn; omega)
        rw [cons_append]
        unfold readString
        simp only [hread, bind_eq_bind, bind_some, hrest]

/-! ## Values that are read back -/

/-- A text that starts a value: no blank, and not the end of an array. -/
def Starts (text : List Char) : Prop := ∃ c t, text = c :: t ∧ isBlank c = false ∧ c ≠ ']' ∧ c ≠ '}'

/-- The text of a number with a fraction or an exponent, as it is read. -/
structure IsToken (text : List Char) : Prop where
  starts : Starts text
  plain : ∀ c t, text = c :: t → c ≠ '"' ∧ c ≠ '[' ∧ c ≠ '{'
  read : ∀ rest, Follows rest → readPlain (text ++ rest) = some (.float text, rest)

mutual

/-- A value whose numbers are tokens and whose objects have each key once. -/
def Json.Plain : Json → Prop
  | .float text => IsToken text
  | .array items => PlainItems items
  | .object fields => PlainFields fields ∧ (fields.map Prod.fst).Nodup
  | .null | .bool _ | .int _ | .string _ => True

def PlainItems : List Json → Prop
  | [] => True
  | x :: rest => x.Plain ∧ PlainItems rest

def PlainFields : List (List Char × Json) → Prop
  | [] => True
  | (_, x) :: rest => x.Plain ∧ PlainFields rest

end

/-- Blanks after the comma and the colon. -/
structure Separators.Blank (sep : Separators) : Prop where
  comma : ∃ b, sep.comma = ',' :: b ∧ ∀ c ∈ b, isBlank c = true
  colon : ∃ b, sep.colon = ':' :: b ∧ ∀ c ∈ b, isBlank c = true

theorem skip_cons (h : isBlank c = false) (t : List Char) : skip (c :: t) = c :: t := by
  simp [skip, h]

theorem skip_blanks {b : List Char} (hb : ∀ c ∈ b, isBlank c = true) (ht : Starts text) : skip (b ++ text) = text := by
  obtain ⟨c, t, rfl, hc, -⟩ := ht
  unfold skip
  rw [dropWhile_append_of_pos hb]
  simp [hc]

theorem Starts.append (h : Starts text) (rest : List Char) : Starts (text ++ rest) := by
  obtain ⟨c, t, rfl, hc, hne⟩ := h
  exact ⟨c, t ++ rest, rfl, hc, hne⟩

theorem isNumeral_bounds (h : isNumeral c = true) : 48 ≤ c.toNat ∧ c.toNat ≤ 57 := by
  simp only [isNumeral, Bool.and_eq_true, decide_eq_true_eq] at h
  exact h

theorem isNumeral_starts (h : isNumeral c = true) : isBlank c = false ∧ c ≠ ']' ∧ c ≠ '}' := by
  have hb := isNumeral_bounds h
  refine ⟨?_, ?_, ?_⟩
  · simp only [isBlank, Bool.or_eq_false_iff, decide_eq_false_iff_not]
    refine ⟨⟨⟨?_, ?_⟩, ?_⟩, ?_⟩ <;> rintro rfl <;> revert hb <;> decide
  · rintro rfl
    revert hb
    decide
  · rintro rfl
    revert hb
    decide

theorem digitsOf_cons (n : ℕ) : ∃ c t, digitsOf n = c :: t ∧ isNumeral c = true := by
  have hall := isNumeral_digitsOf n
  rcases digitsOf_head n with h | ⟨c, t, h, -⟩
  · exact ⟨_, _, h, by decide⟩
  · exact ⟨c, t, h, hall c (h ▸ mem_cons_self)⟩

theorem intText_starts (n : ℤ) : Starts (intText n) := by
  cases n with
  | ofNat n =>
    obtain ⟨c, t, h, hc⟩ := digitsOf_cons n
    exact ⟨c, t, h, isNumeral_starts hc⟩
  | negSucc n => exact ⟨'-', _, rfl, by decide, by decide, by decide⟩

theorem Json.starts (sep : Separators) (hx : x.Plain) : Starts (x.dumps sep) := by
  cases x with
  | null => exact ⟨'n', _, rfl, by decide, by decide, by decide⟩
  | bool b => cases b <;> exact ⟨_, _, rfl, by decide, by decide, by decide⟩
  | int n =>
    rw [Json.dumps]
    exact intText_starts n
  | float text =>
    rw [Json.Plain] at hx
    rw [Json.dumps]
    exact hx.starts
  | string s => exact ⟨'"', _, by rw [Json.dumps]; rfl, by decide, by decide, by decide⟩
  | array items => exact ⟨'[', _, by rw [Json.dumps], by decide, by decide, by decide⟩
  | object fields => exact ⟨'{', _, by rw [Json.dumps], by decide, by decide, by decide⟩

/-- What may stand after the text of a value: the end, or a separator. -/
def After (rest : List Char) : Prop := rest = [] ∨ ∃ c t, rest = c :: t ∧ (c = ',' ∨ c = ']' ∨ c = '}')

theorem After.follows (h : After rest) : Follows rest := by
  rcases h with rfl | ⟨c, t, rfl, h⟩
  · exact nofun
  · rcases h with rfl | rfl | rfl <;> exact follows_cons (by decide) (by decide) (by decide) (by decide)

theorem isPrefixOf_first {word : List Char} {w : Char} (h : w ≠ c) :
    (w :: word).isPrefixOf (c :: t) = false := by
  simp [List.isPrefixOf, h]

theorem readPlain_number (hc : isNumeral c = true) : readPlain (c :: t) = readUnsigned false (c :: t) := by
  have hb := isNumeral_bounds hc
  have hne : ∀ w : Char, ¬ (48 ≤ w.toNat ∧ w.toNat ≤ 57) → w ≠ c := by
    rintro w hw rfl
    exact hw hb
  have hn := hne 'n' (by decide)
  have ht := hne 't' (by decide)
  have hf := hne 'f' (by decide)
  have hN := hne 'N' (by decide)
  have hI := hne 'I' (by decide)
  have hm := hne '-' (by decide)
  unfold readPlain
  simp only [infinity, isPrefixOf_first hn, isPrefixOf_first ht, isPrefixOf_first hf, isPrefixOf_first hN,
    isPrefixOf_first hI, isPrefixOf_first hm, Bool.false_eq_true, if_false]
  unfold readNumber
  split
  · next heq =>
    cases heq
    exact absurd rfl hm
  · rfl

theorem readPlain_intText (n : ℤ) (hr : Follows rest) : readPlain (intText n ++ rest) = some (.int n, rest) := by
  cases n with
  | ofNat n =>
    obtain ⟨c, t, h, hc⟩ := digitsOf_cons n
    have hread := readUnsigned_digitsOf false n hr
    simp only [intText]
    rw [h, cons_append] at hread ⊢
    rw [readPlain_number hc, hread]
    rfl
  | negSucc n =>
    obtain ⟨c, t, h, hc⟩ := digitsOf_cons (n + 1)
    have hread := readUnsigned_digitsOf true (n + 1) hr
    have hI : 'I' ≠ c := by
      rintro rfl
      revert hc
      decide
    simp only [intText]
    rw [h] at hread ⊢
    simp only [cons_append] at hread ⊢
    have hword : ('-' :: infinity).isPrefixOf ('-' :: c :: (t ++ rest)) = false := by
      simp [infinity, List.isPrefixOf, hI]
    unfold readPlain
    rw [hword]
    simp only [infinity, isPrefixOf_first (by decide : 'n' ≠ '-'), isPrefixOf_first (by decide : 't' ≠ '-'),
      isPrefixOf_first (by decide : 'f' ≠ '-'), isPrefixOf_first (by decide : 'N' ≠ '-'),
      isPrefixOf_first (by decide : 'I' ≠ '-'), Bool.false_eq_true, if_false]
    unfold readNumber
    simp only
    rw [hread]
    rfl

/-! ## The round trip -/

theorem readString_quoted (s : List Char) (n : ℕ) (rest : List Char) (hn : (quoted s).length ≤ n + 1) :
    readString n (s.flatMap escape ++ '"' :: rest) = some (s, rest) :=
  readString_escaped s (by simp only [quoted, length_cons, length_append, length_nil] at hn; omega)

theorem quoted_append (s rest : List Char) : quoted s ++ rest = '"' :: (s.flatMap escape ++ '"' :: rest) := by
  simp [quoted]

/-- A first character that is no quote and opens nothing leaves the text to `readPlain`. -/
theorem readValue_plain (h1 : c ≠ '"') (h2 : c ≠ '[') (h3 : c ≠ '{') :
    readValue (n + 1) (c :: t) = readPlain (c :: t) := by
  unfold readValue
  split
  · next heq =>
    cases heq
    exact absurd rfl h1
  · next heq =>
    cases heq
    exact absurd rfl h2
  · next heq =>
    cases heq
    exact absurd rfl h3
  · rfl

theorem readValue_array {items : List Json} (ht : Starts text)
    (hr : readItems n text = some (items, rest)) : readValue (n + 1) ('[' :: text) = some (.array items, rest) := by
  obtain ⟨c, t, rfl, hc, hne, -⟩ := ht
  simp only [readValue, skip_cons hc]
  split
  · next heq =>
    cases heq
    exact absurd rfl hne
  · rw [hr]
    rfl

theorem readValue_object (ht : Starts text)
    (hr : readFields n text = some (fields, rest)) :
    readValue (n + 1) ('{' :: text) = some (.object (dictOf fields), rest) := by
  obtain ⟨c, t, rfl, hc, -, hne⟩ := ht
  simp only [readValue, skip_cons hc]
  split
  · next heq =>
    cases heq
    exact absurd rfl hne
  · rw [hr]
    rfl

/-- Fields with different keys are the dictionary that is made of them. -/
theorem dictOf_nodup (h : (fields.map Prod.fst).Nodup) : dictOf fields = fields := by
  have hput : ∀ (d : List (List Char × Json)) (key : List Char) (x : Json), key ∉ d.map Prod.fst →
      putField key x d = d ++ [(key, x)] := by
    intro d key x hk
    induction d with
    | nil => rfl
    | cons f d ih =>
      rw [map_cons, mem_cons, not_or] at hk
      rw [putField, if_neg (Ne.symm hk.1), ih hk.2, cons_append]
  have hfold : ∀ (fields d : List (List Char × Json)), ((d ++ fields).map Prod.fst).Nodup →
      fields.foldl (fun d f => putField f.1 f.2 d) d = d ++ fields := by
    intro fields
    induction fields with
    | nil => intro d _; simp
    | cons f fields ih =>
      intro d hd
      have hk : f.1 ∉ d.map Prod.fst := by
        rw [map_append, map_cons, nodup_append] at hd
        exact fun hmem => hd.2.2 _ hmem _ mem_cons_self rfl
      rw [foldl_cons, hput d f.1 f.2 hk, ih (d ++ [f]) (by simpa using hd)]
      simp
  exact hfold fields [] h

variable {sep : Separators}

theorem starts_items (sep : Separators) (rest : List Json) (hx : x.Plain) : Starts (dumpsItems sep (x :: rest)) := by
  cases rest with
  | nil => exact Json.starts sep hx
  | cons y rest =>
    rw [dumpsItems, append_assoc]
    exact (Json.starts sep hx).append _

theorem starts_fields (sep : Separators) (f : List Char × Json) (rest : List (List Char × Json)) :
    ∃ t, dumpsFields sep (f :: rest) = '"' :: t := by
  cases rest with
  | nil => exact ⟨_, by rw [dumpsFields, append_assoc, quoted_append]⟩
  | cons y rest =>
    simp only [dumpsFields, append_assoc, quoted_append, cons_append]
    exact ⟨_, rfl⟩

mutual

/-- The text of a value is read back, up to what stands after it. -/
theorem readValue_dumps (hsep : sep.Blank) (x : Json) (hx : x.Plain) (n : ℕ) (rest : List Char)
    (hn : (x.dumps sep).length ≤ n) (hr : After rest) : readValue n (x.dumps sep ++ rest) = some (x, rest) := by
  obtain ⟨c, t, hstart, -⟩ := Json.starts sep hx
  cases n with
  | zero => simp [hstart] at hn
  | succ n =>
    cases x with
    | null => rw [Json.dumps]; rfl
    | bool b => cases b <;> rw [Json.dumps] <;> rfl
    | int k =>
      rw [Json.dumps] at hstart ⊢
      have hread := readPlain_intText k hr.follows
      have hc : isNumeral c = true ∨ c = '-' := by
        cases k with
        | ofNat k => exact .inl (isNumeral_digitsOf k c (by rw [← intText, hstart]; exact mem_cons_self))
        | negSucc k => cases hstart; exact .inr rfl
      rw [hstart, cons_append] at hread ⊢
      rw [readValue_plain, hread] <;> rintro rfl <;> rcases hc with hc | hc <;> revert hc <;> decide
    | float text =>
      rw [Json.Plain] at hx
      rw [Json.dumps] at hstart ⊢
      obtain ⟨h1, h2, h3⟩ := hx.plain c t hstart
      have hread := hx.read rest hr.follows
      rw [hstart, cons_append] at hread ⊢
      rw [readValue_plain h1 h2 h3, hread]
    | string s =>
      rw [Json.dumps] at hn ⊢
      rw [quoted_append]
      simp only [readValue, readString_quoted s _ _ hn, map_some]
    | array items =>
      rw [Json.dumps] at hn ⊢
      rw [Json.Plain] at hx
      cases items with
      | nil => rfl
      | cons x items =>
        rw [cons_append, append_assoc]
        refine readValue_array ((starts_items sep _ (by rw [PlainItems] at hx; exact hx.1)).append _) ?_
        exact readItems_dumps hsep (x :: items) (cons_ne_nil _ _) hx _ _ (by
          simp only [length_cons, length_append, length_nil] at hn
          omega)
    | object fields =>
      rw [Json.dumps] at hn ⊢
      rw [Json.Plain] at hx
      cases fields with
      | nil => rfl
      | cons f fields =>
        rw [cons_append, append_assoc]
        obtain ⟨t, ht⟩ := starts_fields sep f fields
        have hread := readFields_dumps hsep (f :: fields) (cons_ne_nil _ _) hx.1 n rest (by
          simp only [length_cons, length_append, length_nil] at hn
          omega)
        rw [readValue_object (Starts.append ⟨'"', t, ht, by decide, by decide, by decide⟩ _) hread, dictOf_nodup hx.2]

theorem readItems_dumps (hsep : sep.Blank) (items : List Json) (hne : items ≠ []) (hx : PlainItems items) (n : ℕ)
    (rest : List Char) (hn : (dumpsItems sep items).length < n) :
    readItems n (dumpsItems sep items ++ ([']'] ++ rest)) = some (items, rest) := by
  cases n with
  | zero => cases hn
  | succ n =>
    match items with
    | [] => exact absurd rfl hne
    | [x] =>
      rw [PlainItems] at hx
      rw [dumpsItems] at hn ⊢
      have hread := readValue_dumps hsep x hx.1 n (']' :: rest) (by omega) (.inr ⟨_, _, rfl, .inr (.inl rfl)⟩)
      simp only [cons_append, nil_append, readItems, hread, skip_cons (by decide : isBlank ']' = false)]
    | x :: y :: items =>
      obtain ⟨b, hcomma, hb⟩ := hsep.comma
      rw [PlainItems] at hx
      rw [dumpsItems] at hn ⊢
      simp only [length_append, hcomma, length_cons] at hn
      have hrest := readItems_dumps hsep (y :: items) (cons_ne_nil _ _) hx.2 n rest (by omega)
      have hread := readValue_dumps hsep x hx.1 n
        (',' :: (b ++ (dumpsItems sep (y :: items) ++ ([']'] ++ rest)))) (by omega) (.inr ⟨_, _, rfl, .inl rfl⟩)
      have hskip := skip_blanks hb ((starts_items sep items (by
        have := hx.2
        rw [PlainItems] at this
        exact this.1)).append ([']'] ++ rest))
      simp only [hcomma, append_assoc, cons_append, nil_append] at hrest hread hskip ⊢
      simp only [readItems, hread, skip_cons (by decide : isBlank ',' = false), hskip, hrest, map_some]

theorem readFields_dumps (hsep : sep.Blank) (fields : List (List Char × Json)) (hne : fields ≠ []) (hx : PlainFields fields)
    (n : ℕ) (rest : List Char) (hn : (dumpsFields sep fields).length < n) :
    readFields n (dumpsFields sep fields ++ (['}'] ++ rest)) = some (fields, rest) := by
  obtain ⟨b, hcolon, hb⟩ := hsep.colon
  cases n with
  | zero => cases hn
  | succ n =>
    match fields with
    | [] => exact absurd rfl hne
    | [(key, x)] =>
      rw [PlainFields] at hx
      rw [dumpsFields] at hn ⊢
      simp only [length_append, hcolon, length_cons] at hn
      have hkey := readString_quoted key n (':' :: (b ++ (x.dumps sep ++ '}' :: rest))) (by omega)
      have hread := readValue_dumps hsep x hx.1 n ('}' :: rest) (by omega) (.inr ⟨_, _, rfl, .inr (.inr rfl)⟩)
      have hskip := skip_blanks hb ((Json.starts sep hx.1).append ('}' :: rest))
      simp only [hcolon, append_assoc, cons_append, nil_append, quoted_append] at hkey hread hskip ⊢
      simp only [readFields, hkey, skip_cons (by decide : isBlank ':' = false), hskip, hread,
        skip_cons (by decide : isBlank '}' = false)]
    | (key, x) :: f :: fields =>
      obtain ⟨b', hcomma, hb'⟩ := hsep.comma
      rw [PlainFields] at hx
      rw [dumpsFields] at hn ⊢
      simp only [length_append, hcolon, hcomma, length_cons] at hn
      have hrest := readFields_dumps hsep (f :: fields) (cons_ne_nil _ _) hx.2 n rest (by omega)
      obtain ⟨t, ht⟩ := starts_fields sep f fields
      have hread := readValue_dumps hsep x hx.1 n
        (',' :: (b' ++ (dumpsFields sep (f :: fields) ++ ('}' :: rest)))) (by omega) (.inr ⟨_, _, rfl, .inl rfl⟩)
      have hkey := readString_quoted key n (':' :: (b ++ (x.dumps sep ++
        (',' :: (b' ++ (dumpsFields sep (f :: fields) ++ ('}' :: rest))))))) (by omega)
      have hskip := skip_blanks hb ((Json.starts sep hx.1).append
        (',' :: (b' ++ (dumpsFields sep (f :: fields) ++ ('}' :: rest)))))
      have hskip' := skip_blanks hb' (Starts.append ⟨'"', t, ht, by decide, by decide, by decide⟩ ('}' :: rest))
      simp only [hcolon, hcomma, append_assoc, cons_append, nil_append, quoted_append]
        at hrest hkey hread hskip hskip' ⊢
      simp only [readFields, hkey, skip_cons (by decide : isBlank ':' = false), hskip, hread,
        skip_cons (by decide : isBlank ',' = false), hskip', hrest, map_some]

end

/-- **The round trip.** A text that was written is read back. -/
theorem loads_dumps (hsep : sep.Blank) (hx : x.Plain) : loads (x.dumps sep) = some x := by
  obtain ⟨c, t, hstart, hc, -⟩ := Json.starts sep hx
  have hread := readValue_dumps hsep x hx ((x.dumps sep).length + 1) [] (by omega) (.inl rfl)
  rw [append_nil] at hread
  have hskip : skip (x.dumps sep) = x.dumps sep := by
    rw [hstart]
    exact skip_cons hc t
  simp only [loads, hskip, hread]
  rfl

/-! ## Texts without control characters -/

/-- A text without control characters. -/
def Visible (text : List Char) : Prop := ∀ c ∈ text, 0x20 ≤ c.toNat

theorem Visible.append {s : List Char} (hs : Visible s) (ht : Visible t) : Visible (s ++ t) := by
  intro c hc
  rcases mem_append.mp hc with hc | hc
  · exact hs c hc
  · exact ht c hc

instance (text : List Char) : Decidable (Visible text) := List.decidableBAll (fun c : Char => 0x20 ≤ c.toNat) text

theorem visible_numerals (h : ∀ c ∈ text, isNumeral c = true) : Visible text :=
  fun c hc => le_trans (by decide) (isNumeral_bounds (h c hc)).1

theorem visible_takeWhile (text : List Char) : Visible (text.takeWhile isNumeral) :=
  visible_numerals fun _ hc => mem_takeWhile_imp hc

theorem visible_wholePart (text : List Char) : Visible (wholePart text) := by
  unfold wholePart
  split
  · decide
  · exact visible_takeWhile _

theorem visible_fractionPart (text : List Char) : Visible (fractionPart text) := by
  unfold fractionPart
  split
  · split
    · decide
    · exact Visible.append (s := ['.']) (by decide) (visible_takeWhile _)
  · decide

theorem visible_exponentPart (text : List Char) : Visible (exponentPart text) := by
  unfold exponentPart
  split
  · next e text =>
    split
    · next he =>
      have hstart : Visible [e] := by rcases he with rfl | rfl <;> decide
      have hparts : ∀ sign rest : List Char, Visible sign →
          Visible (if rest.takeWhile isNumeral = [] then [] else e :: (sign ++ rest.takeWhile isNumeral)) := by
        intro sign rest hsign
        split
        · decide
        · exact hstart.append (hsign.append (visible_takeWhile _))
      split
      · exact hparts _ _ (by decide)
      · exact hparts _ _ (by decide)
      · exact hparts _ _ (by decide)
    · decide
  · decide

theorem visible_readUnsigned {negative : Bool}
    (h : readUnsigned negative text = some (.float token, rest)) : Visible token := by
  simp only [readUnsigned] at h
  split at h
  · cases h
  · split at h
    · cases h
    · simp only [Option.some.injEq, Prod.mk.injEq, Json.float.injEq] at h
      rw [← h.1]
      refine Visible.append (Visible.append (Visible.append ?_ (visible_wholePart _)) (visible_fractionPart _))
        (visible_exponentPart _)
      cases negative <;> decide

theorem visible_readPlain (h : readPlain text = some (.float token, rest)) : Visible token := by
  unfold readPlain at h
  split at h
  · cases h
  · split at h
    · cases h
    · split at h
      · cases h
      · split at h
        · cases h
          decide
        · split at h
          · cases h
            decide
          · split at h
            · cases h
              decide
            · unfold readNumber at h
              split at h <;> exact visible_readUnsigned h

theorem visible_hexDigit : ∀ n < 16, 0x20 ≤ (hexDigit n).toNat := by decide

theorem visible_escape (c : Char) : Visible (escape c) := by
  unfold escape
  split
  · decide
  · split
    · decide
    · split
      · decide
      · split
        · decide
        · split
          · decide
          · split
            · decide
            · split
              · decide
              · split
                · next hc =>
                  intro x hx
                  have h1 := visible_hexDigit (c.toNat / 16) (by omega)
                  have h2 := visible_hexDigit (c.toNat % 16) (by omega)
                  simp only [mem_cons, not_mem_nil, or_false] at hx
                  rcases hx with rfl | rfl | rfl | rfl | rfl | rfl
                  · decide
                  · decide
                  · decide
                  · decide
                  · exact h1
                  · exact h2
                · next hc =>
                  intro x hx
                  rw [mem_singleton.mp hx]
                  omega

theorem visible_quoted (s : List Char) : Visible (quoted s) := by
  refine Visible.append (s := ['"']) (by decide) (Visible.append (fun c hc => ?_) (by decide))
  obtain ⟨x, -, hc⟩ := mem_flatMap.mp hc
  exact visible_escape x c hc

theorem visible_intText (n : ℤ) : Visible (intText n) := by
  cases n with
  | ofNat n => exact visible_numerals (isNumeral_digitsOf n)
  | negSucc n => exact Visible.append (s := ['-']) (by decide) (visible_numerals (isNumeral_digitsOf (n + 1)))

theorem IsToken.visible (h : IsToken text) : Visible text := by
  have hread := h.read [] nofun
  exact visible_readPlain hread

mutual

/-- A text that was written has no control characters. -/
theorem visible_dumps (hcomma : Visible sep.comma) (hcolon : Visible sep.colon) (x : Json) (hx : x.Plain) :
    Visible (x.dumps sep) := by
  cases x with
  | null => rw [Json.dumps]; decide
  | bool b => cases b <;> rw [Json.dumps] <;> decide
  | int n => rw [Json.dumps]; exact visible_intText n
  | float text => rw [Json.dumps]; exact IsToken.visible hx
  | string s => rw [Json.dumps]; exact visible_quoted s
  | array items =>
    rw [Json.dumps]
    exact Visible.append (s := ['[']) (by decide) ((visible_items hcomma hcolon items hx).append (by decide))
  | object fields =>
    rw [Json.Plain] at hx
    rw [Json.dumps]
    exact Visible.append (s := ['\x7b']) (by decide) ((visible_fields hcomma hcolon fields hx.1).append (by decide))

theorem visible_items (hcomma : Visible sep.comma) (hcolon : Visible sep.colon) (items : List Json)
    (hx : PlainItems items) : Visible (dumpsItems sep items) := by
  match items with
  | [] => rw [dumpsItems]; decide
  | [x] => rw [dumpsItems]; exact visible_dumps hcomma hcolon x hx.1
  | x :: y :: rest =>
    rw [dumpsItems]
    exact ((visible_dumps hcomma hcolon x hx.1).append hcomma).append (visible_items hcomma hcolon (y :: rest) hx.2)

theorem visible_fields (hcomma : Visible sep.comma) (hcolon : Visible sep.colon) (fields : List (List Char × Json))
    (hx : PlainFields fields) : Visible (dumpsFields sep fields) := by
  match fields with
  | [] => rw [dumpsFields]; decide
  | [(key, x)] =>
    rw [dumpsFields]
    exact ((visible_quoted key).append hcolon).append (visible_dumps hcomma hcolon x hx.1)
  | (key, x) :: f :: rest =>
    rw [dumpsFields]
    exact ((((visible_quoted key).append hcolon).append (visible_dumps hcomma hcolon x hx.1)).append hcomma).append
      (visible_fields hcomma hcolon (f :: rest) hx.2)

end

end Wire
