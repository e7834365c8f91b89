import Docich.Captions.Wire
import Docich.Fallible

/-!
# The wire agreement

What the client sends, the filter reads (`parse_request_iff`), unless the execution id is spelled like a key that is
looked up past it.

- `Checked`: what the client's checks leave of a request;
- `pieces`: the line of a request, cut at its quotes; a key is looked up in them one by one (`jsonValue_quoted`).
-/

namespace Docich.Captions

open List Fallible Wire

open Wire (Byte base64 strstr strtol quote)

/-! ## Checked requests -/

def CheckedId (id : List Char) : Prop := id ≠ [] ∧ id.length ≤ 128 ∧ id.all isIdChar = true

/-- One or two lines of printable characters, none empty or longer than 32. -/
inductive CheckedText : List Char → Prop
  | one {a : List Char} (ha : a ≠ []) (hl : a.length ≤ 32) (hp : ∀ c ∈ a, isPrintable c = true) : CheckedText a
  | two {a b : List Char} (ha : a ≠ []) (hl : a.length ≤ 32) (hp : ∀ c ∈ a, isPrintable c = true)
      (hb : b ≠ []) (hl' : b.length ≤ 32) (hp' : ∀ c ∈ b, isPrintable c = true) : CheckedText (a ++ '\n' :: b)

/-- What the client's checks leave. -/
def Checked : Request → Prop
  | .prepare id page text => CheckedId id ∧ page < 32 ∧ CheckedText text
  | .commit id page => CheckedId id ∧ page < 32
  | .clear id => CheckedId id
  | .reset => True

theorem validateExecutionId_ok {id id' : List Char} (h : validateExecutionId id = .ok id') : CheckedId id' := by
  unfold validateExecutionId at h
  split at h
  · next hid =>
    cases h
    exact ⟨ne_nil_of_length_pos hid.1, hid.2.1, hid.2.2⟩
  · cases h

variable {n : Nat} {nfkd : List Char → List Char} {r : Request} {c : Char}
    {key piece json : List Char}

theorem validatePage_ok {page : Int} (h : validatePage page = .ok n) : n < 32 := by
  unfold validatePage protocolPageSlots at h
  split at h
  · next hpage =>
    cases h
    omega
  · cases h

variable {text : List Char}

theorem prepareText_ok {text' : List Char}
    (h : Client.prepareText nfkd text = .ok text') : CheckedText text' := by
  unfold Client.prepareText at h
  dsimp only at h
  split at h
  · cases h
  · next hlines =>
    rw [not_not] at hlines
    obtain ⟨normalized, hmap, h⟩ := bind_ok h
    split at h
    · cases h
    · next hlong =>
      cases h
      have hshort : ∀ line ∈ normalized, line.length ≤ 32 := by
        intro line hline
        by_contra hgt
        exact hlong (any_eq_true.mpr ⟨line, hline, by simpa using hgt⟩)
      generalize splitlines text = lines at hlines hmap
      match lines, hlines with
      | [a], _ =>
        rw [mapM_cons, mapM_nil] at hmap
        obtain ⟨a', ha, hmap⟩ := bind_ok hmap
        cases hmap
        obtain ⟨hne, hp⟩ := normalizeCaptionText_ok ha
        have hjoin : ['\n'].intercalate [a'] = a' := by simp [List.intercalate]
        rw [hjoin]
        exact .one hne (hshort a' mem_cons_self) hp
      | [a, b], _ =>
        rw [mapM_cons, mapM_cons, mapM_nil] at hmap
        obtain ⟨a', ha, hmap⟩ := bind_ok hmap
        obtain ⟨rest, hrest, hmap⟩ := bind_ok hmap
        obtain ⟨b', hb, hrest⟩ := bind_ok hrest
        cases hrest
        cases hmap
        obtain ⟨hne, hp⟩ := normalizeCaptionText_ok ha
        obtain ⟨hne', hp'⟩ := normalizeCaptionText_ok hb
        have hjoin : ['\n'].intercalate [a', b'] = a' ++ '\n' :: b' := by simp [List.intercalate]
        rw [hjoin]
        exact .two hne (hshort a' mem_cons_self) hp hne' (hshort b' (mem_cons_of_mem _ mem_cons_self)) hp'

theorem check_ok {op : Client.Operation}
    (h : Client.check nfkd op = .ok r) : Checked r := by
  cases op with
  | prepare id page text =>
    obtain ⟨id', hid, h⟩ := bind_ok h
    obtain ⟨page', hpage, h⟩ := bind_ok h
    obtain ⟨text', htext, h⟩ := bind_ok h
    cases h
    exact ⟨validateExecutionId_ok hid, validatePage_ok hpage, prepareText_ok htext⟩
  | commit id page =>
    obtain ⟨id', hid, h⟩ := bind_ok h
    obtain ⟨page', hpage, h⟩ := bind_ok h
    cases h
    exact ⟨validateExecutionId_ok hid, validatePage_ok hpage⟩
  | clear id =>
    obtain ⟨id', hid, h⟩ := bind_ok h
    cases h
    exact validateExecutionId_ok hid
  | reset =>
    cases h
    trivial

/-! ## Texts on the wire -/

theorem isPrintable_iff : isPrintable c = true ↔ 0x20 ≤ c.toNat ∧ c.toNat ≤ 0x7e := by
  simp [isPrintable]

theorem bytesOf_val (h : c.toNat < 256) : (Fin.ofNat 256 c.toNat : Byte).val = c.toNat := Nat.mod_eq_of_lt h

/-- A line of printable characters only adds its columns. -/
theorem validateTextFrom_line {line : List Char} (hp : ∀ c ∈ line, isPrintable c = true) (columns : Nat)
    (hl : columns + line.length ≤ 32) (rest : List Byte) (lines : Nat) :
    validateTextFrom (Client.bytesOf line ++ rest) columns lines = validateTextFrom rest (columns + line.length) lines := by
  induction line generalizing columns with
  | nil => rfl
  | cons c line ih =>
    have hc := isPrintable_iff.mp (hp c mem_cons_self)
    have hval := bytesOf_val (c := c) (by omega)
    have hline : (c :: line).length = line.length + 1 := rfl
    have ih' := ih (fun d hd => hp d (mem_cons_of_mem _ hd)) (columns + 1) (by omega)
    show validateTextFrom (Fin.ofNat 256 c.toNat :: (Client.bytesOf line ++ rest)) columns lines = _
    rw [validateTextFrom, hval, if_neg (by omega), ih']
    have hok : (decide (c.toNat < 0x20) || decide (0x7e < c.toNat) || decide (32 < columns + 1)) = false := by
      simp only [Bool.or_eq_false_iff, decide_eq_false_iff_not]
      omega
    rw [hok, hline]
    simp only [Bool.not_false, Bool.true_and]
    congr 1
    omega

theorem bytesOf_append (a b : List Char) : Client.bytesOf (a ++ b) = Client.bytesOf a ++ Client.bytesOf b :=
  map_append

theorem CheckedText.valid (h : CheckedText text) :
    text.length ≤ 65 ∧ validateText (Client.bytesOf text) = true ∧
      (Client.bytesOf text).map (fun b => Char.ofNat b.val) = text := by
  have hback : ∀ text : List Char, (∀ c ∈ text, c.toNat < 256) →
      (Client.bytesOf text).map (fun b => Char.ofNat b.val) = text := by
    intro text htext
    unfold Client.bytesOf
    rw [map_map]
    conv_rhs => rw [← map_id text]
    apply map_congr_left
    intro c hc
    show Char.ofNat (Fin.ofNat 256 c.toNat : Byte).val = c
    rw [bytesOf_val (htext c hc), Char.ofNat_toNat]
  cases h with
  | one ha hl hp =>
    have hpos := length_pos_iff.mpr ha
    refine ⟨by omega, ?_, hback _ fun c hc => ?_⟩
    · unfold validateText maxText
      have hline := validateTextFrom_line hp 0 (by omega) [] 1
      rw [append_nil] at hline
      rw [hline]
      have hlen : (Client.bytesOf text).length = text.length := length_map _
      simp only [hlen, validateTextFrom, Bool.and_eq_true, decide_eq_true_eq]
      omega
    · have := isPrintable_iff.mp (hp c hc)
      omega
  | @two a b ha hl hp hb hl' hp' =>
    have hpos := length_pos_iff.mpr ha
    have hpos' := length_pos_iff.mpr hb
    have hlen : (a ++ '\n' :: b).length = a.length + (b.length + 1) := by simp
    refine ⟨by omega, ?_, hback _ fun c hc => ?_⟩
    · unfold validateText maxText
      have hbytes : (Client.bytesOf (a ++ '\n' :: b)).length = (a ++ '\n' :: b).length := length_map _
      have hline := validateTextFrom_line hp 0 (by omega) (Client.bytesOf ('\n' :: b)) 1
      have hline' := validateTextFrom_line hp' 0 (by omega) [] 2
      rw [append_nil] at hline'
      have hbreak : Client.bytesOf ('\n' :: b) = (10 : Byte) :: Client.bytesOf b := rfl
      rw [bytesOf_append, hline, hbreak, validateTextFrom, if_pos (by rfl), hline', ← hbreak, ← bytesOf_append, hbytes, hlen]
      simp only [validateTextFrom, Bool.and_eq_true, decide_eq_true_eq]
      omega
    · rcases mem_append.mp hc with hc | hc
      · have := isPrintable_iff.mp (hp c hc)
        omega
      · rcases mem_cons.mp hc with rfl | hc
        · decide
        · have := isPrintable_iff.mp (hp' c hc)
          omega

/-! ## The line, cut at its quotes -/

def quoted : List (List Char) → List Char
  | [] => []
  | piece :: pieces => '"' :: (piece ++ quoted pieces)

/-- A key looked up in the pieces. -/
def lookUp (key : List Char) : List (List Char) → Option (List Char)
  | piece :: next :: pieces => if piece = key then afterColon (next ++ quoted pieces) else lookUp key (next :: pieces)
  | _ => none

theorem lookUp_ne {next : List Char} {pieces : List (List Char)} (h : piece ≠ key) :
    lookUp key (piece :: next :: pieces) = lookUp key (next :: pieces) := if_neg h

theorem strstr_last {word : List Char} (hp : '"' ∉ piece) : strstr (quote word) ('"' :: piece) = none := by
  have hnone : strstr (quote word) piece = none := by
    have := strstr_append (word ++ ['"']) hp []
    rw [append_nil] at this
    unfold quote
    rw [this]
    rfl
  rw [strstr]
  split
  · next hword =>
    -- There is no second quote.
    obtain ⟨t, ht⟩ := isPrefixOf_iff_prefix.mp hword
    have hcons : word ++ '"' :: t = piece := by
      have := congrArg List.tail ht
      simpa [quote] using this
    exact absurd (hcons ▸ mem_append_right _ mem_cons_self) hp
  · exact hnone

theorem jsonValue_quoted {a : List Char} {pieces : List (List Char)} (hkey : '"' ∉ key) (ha : '"' ∉ a)
    (hpieces : ∀ p ∈ pieces, '"' ∉ p) : jsonValue (a ++ quoted pieces) key = lookUp key pieces := by
  have hskip : strstr (quote key) (a ++ quoted pieces) = strstr (quote key) (quoted pieces) :=
    strstr_append _ ha _
  unfold jsonValue
  rw [hskip]
  clear hskip
  induction pieces with
  | nil => rfl
  | cons piece pieces ih =>
    have hpiece := hpieces piece mem_cons_self
    have ih := ih fun p hp => hpieces p (mem_cons_of_mem _ hp)
    cases pieces with
    | nil =>
      have hnone : strstr (quote key) (quoted [piece]) = none := by
        rw [quoted, quoted, append_nil, strstr_last hpiece]
      rw [hnone]
      rfl
    | cons next pieces =>
      have hstep : strstr (quote key) (quoted (piece :: next :: pieces)) =
          if piece = key then some (quote key ++ (next ++ quoted pieces))
          else strstr (quote key) (quoted (next :: pieces)) := strstr_quoted hkey hpiece _
      rw [hstep]
      unfold lookUp
      by_cases h : piece = key
      · rw [if_pos h, if_pos h]
        dsimp only
        rw [drop_left]
      · rw [if_neg h, if_neg h]
        exact ih

/-- The line of a request, between its quotes. -/
def pieces : Request → List (List Char)
  | .prepare id page text =>
    ["v".toList, ":1,".toList, "op".toList, ":".toList, "prepare".toList, ",".toList, "executionId".toList, ":".toList,
      id, ",".toList, "page".toList, ':' :: (Nat.toDigits 10 page ++ [',']), "textBase64".toList, ":".toList,
      base64 (Client.bytesOf text), "\x7d".toList]
  | .commit id page =>
    ["v".toList, ":1,".toList, "op".toList, ":".toList, "commit".toList, ",".toList, "executionId".toList, ":".toList,
      id, ",".toList, "page".toList, ':' :: (Nat.toDigits 10 page ++ ['}'])]
  | .clear id =>
    ["v".toList, ":1,".toList, "op".toList, ":".toList, "clear".toList, ",".toList, "executionId".toList, ":".toList,
      id, "\x7d".toList]
  | .reset => ["v".toList, ":1,".toList, "op".toList, ":".toList, "reset".toList, "\x7d".toList]

/-- A character that a JSON string carries as it is. -/
def isPlain (c : Char) : Bool := isPrintable c && c ≠ '"' && c ≠ '\\'

theorem flatMap_escape {s : List Char} (h : ∀ c ∈ s, isPlain c = true) : s.flatMap Client.escape = s := by
  induction s with
  | nil => rfl
  | cons c s ih =>
    have hc := h c mem_cons_self
    simp only [isPlain, Bool.and_eq_true, decide_eq_true_eq, ne_eq] at hc
    obtain ⟨⟨hprint, hquote⟩, hslash⟩ := hc
    have hescape : Client.escape c = [c] := by
      unfold Client.escape
      rw [if_neg hquote, if_neg hslash, if_pos hprint]
    rw [flatMap_cons, hescape, ih fun d hd => h d (mem_cons_of_mem _ hd)]
    rfl

theorem isPlain_iff : isPlain c = true ↔ 0x20 ≤ c.toNat ∧ c.toNat ≤ 0x7e ∧ c ≠ '"' ∧ c ≠ '\\' := by
  simp [isPlain, isPrintable, and_assoc]

theorem isPlain_of_isIdChar (h : isIdChar c = true) : isPlain c = true := by
  have hall : ∀ n < 128, isIdChar (Char.ofNat n) = true → isPlain (Char.ofNat n) = true := by decide
  have hlt : c.toNat < 128 := by
    simp only [isIdChar, Bool.or_eq_true, Bool.and_eq_true, decide_eq_true_eq] at h
    rcases h with (((((⟨-, h⟩ | ⟨-, h⟩) | ⟨-, h⟩) | rfl) | rfl) | rfl) | rfl
    · exact lt_of_le_of_lt (show c.toNat ≤ 'Z'.toNat from h) (by decide)
    · exact lt_of_le_of_lt (show c.toNat ≤ 'z'.toNat from h) (by decide)
    · exact lt_of_le_of_lt (show c.toNat ≤ '9'.toNat from h) (by decide)
    · decide
    · decide
    · decide
    · decide
  have := hall c.toNat hlt
  rw [Char.ofNat_toNat] at this
  exact this h

theorem isPlain_of_isBase64 (h : Wire.isBase64 c = true) : isPlain c = true := by
  have hall : ∀ n < 128, Wire.isBase64 (Char.ofNat n) = true → isPlain (Char.ofNat n) = true := by decide
  have hlt : c.toNat < 128 := by
    simp only [Wire.isBase64, Char.isAlphanum, Char.isAlpha, Char.isUpper, Char.isLower, Char.isDigit, Bool.or_eq_true,
      Bool.and_eq_true, decide_eq_true_eq] at h
    rcases h with ((((⟨-, h⟩ | ⟨-, h⟩) | ⟨-, h⟩) | rfl) | rfl) | rfl
    · exact lt_of_le_of_lt (show c.toNat ≤ 'Z'.toNat from h) (by decide)
    · exact lt_of_le_of_lt (show c.toNat ≤ 'z'.toNat from h) (by decide)
    · exact lt_of_le_of_lt (show c.toNat ≤ '9'.toNat from h) (by decide)
    · decide
    · decide
    · decide
  have := hall c.toNat hlt
  rw [Char.ofNat_toNat] at this
  exact this h

theorem dumps_pieces (hr : Checked r) : Client.dumps (Client.payload r) = '{' :: quoted (pieces r) := by
  have hid : ∀ {id : List Char}, CheckedId id → id.flatMap Client.escape = id := fun h =>
    flatMap_escape fun c hc => isPlain_of_isIdChar (all_eq_true.mp h.2.2 c hc)
  have hv : "v".toList.flatMap Client.escape = "v".toList := by decide
  have hop : "op".toList.flatMap Client.escape = "op".toList := by decide
  have hexec : "executionId".toList.flatMap Client.escape = "executionId".toList := by decide
  have hpage : "page".toList.flatMap Client.escape = "page".toList := by decide
  have htext : "textBase64".toList.flatMap Client.escape = "textBase64".toList := by decide
  cases r with
  | prepare id page text =>
    have hname : "prepare".toList.flatMap Client.escape = "prepare".toList := by decide
    have hbytes : (base64 (Client.bytesOf text)).flatMap Client.escape = base64 (Client.bytesOf text) :=
      flatMap_escape fun c hc => isPlain_of_isBase64 (mem_base64 _ c hc)
    simp only [Client.dumps, Client.payload, Client.Value.dumps, map_cons, map_nil, hid hr.1, hv, hop, hexec,
      hpage, htext, hname, hbytes, List.intercalate, List.intersperse, flatten_cons, flatten_nil, pieces, quoted,
      quote, append_assoc, cons_append, nil_append, append_nil]
    rfl
  | commit id page =>
    have hname : "commit".toList.flatMap Client.escape = "commit".toList := by decide
    simp only [Client.dumps, Client.payload, Client.Value.dumps, map_cons, map_nil, hid hr.1, hv, hop, hexec,
      hpage, hname, List.intercalate, List.intersperse, flatten_cons, flatten_nil, pieces, quoted, quote,
      append_assoc, cons_append, nil_append, append_nil]
    rfl
  | clear id =>
    have hname : "clear".toList.flatMap Client.escape = "clear".toList := by decide
    simp only [Client.dumps, Client.payload, Client.Value.dumps, map_cons, map_nil, hid hr, hv, hop, hexec,
      hname, List.intercalate, List.intersperse, flatten_cons, flatten_nil, pieces, quoted, quote,
      append_assoc, cons_append, nil_append, append_nil]
    rfl
  | reset => rfl

/-- No piece has a quote or a line break in it. -/
theorem clean_pieces (hr : Checked r) : ∀ p ∈ pieces r, ∀ c ∈ p, isPlain c = true := by
  have hid : ∀ {id : List Char}, CheckedId id → ∀ c ∈ id, isPlain c = true := fun h c hc =>
    isPlain_of_isIdChar (all_eq_true.mp h.2.2 c hc)
  have hdigits : ∀ {page : Nat} {d : Char}, page < 32 → isPlain d = true →
      isPlain ':' = true ∧ ∀ c ∈ Nat.toDigits 10 page ++ [d], isPlain c = true := by
    intro page d hpage hd
    have hall : ∀ n : Fin 32, (Nat.toDigits 10 n).all isPlain = true := by decide
    refine ⟨by decide, fun c hc => ?_⟩
    rcases mem_append.mp hc with hc | hc
    · exact all_eq_true.mp (hall ⟨page, hpage⟩) c hc
    · rw [mem_singleton.mp hc]
      exact hd
  have hall : (["v".toList, ":1,".toList, "op".toList, ":".toList, "prepare".toList, "commit".toList, "clear".toList,
      "reset".toList, ",".toList, "executionId".toList, "page".toList, "textBase64".toList,
      "\x7d".toList].all fun s => s.all isPlain) = true := by decide
  have hlit := all_eq_true.mp hall
  simp only [forall_mem_cons, all_eq_true] at hlit
  obtain ⟨h₁, h₂, h₃, h₄, h₅, h₆, h₇, h₈, h₉, h₁₀, h₁₁, h₁₂, h₁₃, -⟩ := hlit
  cases r with
  | prepare id page text =>
    simp only [pieces, forall_mem_cons]
    exact ⟨h₁, h₂, h₃, h₄, h₅, h₉, h₁₀, h₄, hid hr.1, h₉, h₁₁, hdigits hr.2.1 rfl, h₁₂, h₄,
      fun c hc => isPlain_of_isBase64 (mem_base64 _ c hc), h₁₃, fun _ h => nomatch h⟩
  | commit id page =>
    simp only [pieces, forall_mem_cons]
    exact ⟨h₁, h₂, h₃, h₄, h₆, h₉, h₁₀, h₄, hid hr.1, h₉, h₁₁, hdigits hr.2 rfl, fun _ h => nomatch h⟩
  | clear id =>
    simp only [pieces, forall_mem_cons]
    exact ⟨h₁, h₂, h₃, h₄, h₇, h₉, h₁₀, h₄, hid hr, h₁₃, fun _ h => nomatch h⟩
  | reset =>
    simp only [pieces, forall_mem_cons]
    exact ⟨h₁, h₂, h₃, h₄, h₈, h₁₃, fun _ h => nomatch h⟩

theorem mem_quoted {pieces : List (List Char)} (h : c ∈ quoted pieces) : c = '"' ∨ ∃ p ∈ pieces, c ∈ p := by
  induction pieces with
  | nil => cases h
  | cons piece pieces ih =>
    rcases mem_cons.mp h with rfl | h
    · exact .inl rfl
    · rcases mem_append.mp h with h | h
      · exact .inr ⟨piece, mem_cons_self, h⟩
      · rcases ih h with rfl | ⟨p, hp, hc⟩
        · exact .inl rfl
        · exact .inr ⟨p, mem_cons_of_mem _ hp, hc⟩

theorem lineOf_pieces (hr : Checked r) :
    lineOf (Client.dumps (Client.payload r) ++ ['\n']) = '{' :: quoted (pieces r) := by
  rw [dumps_pieces hr]
  unfold lineOf
  rw [takeWhile_append_of_pos]
  · simp
  · intro c hc
    have hne : c ≠ '\n' := by
      rcases mem_cons.mp hc with rfl | hc
      · decide
      · rcases mem_quoted hc with rfl | ⟨p, hp, hcp⟩
        · decide
        · rintro rfl
          exact absurd (clean_pieces hr p hp _ hcp) (by decide)
    simpa using hne

/-- In the line of a request, a key is looked up among its pieces. -/
theorem jsonValue_request (hr : Checked r) (key : List Char) (hkey : '"' ∉ key) :
    jsonValue ('{' :: quoted (pieces r)) key = lookUp key (pieces r) := by
  apply jsonValue_quoted (a := ['{']) hkey (by decide)
  intro p hp hquote
  exact absurd (clean_pieces hr p hp _ hquote) (by decide)

/-! ## Reading -/

theorem toDigits_page (h : n < 32) : ∃ d digits, Nat.toDigits 10 n = d :: digits ∧
    (∀ c ∈ d :: digits, c.isDigit = true) ∧ Wire.decimal (d :: digits) = n ∧ isBlank d = false := by
  have hall : ∀ n : Fin 32, (Nat.toDigits 10 n).all Char.isDigit = true ∧ Wire.decimal (Nat.toDigits 10 n) = n ∧
      (Nat.toDigits 10 n).head?.any (fun d => !isBlank d) = true := by decide
  obtain ⟨hdigits, hvalue, hhead⟩ := hall ⟨n, h⟩
  cases hd : Nat.toDigits 10 n with
  | nil =>
    rw [hd] at hhead
    cases hhead
  | cons d digits =>
    rw [hd] at hdigits hvalue hhead
    exact ⟨d, digits, rfl, all_eq_true.mp hdigits, hvalue, by simpa using hhead⟩

/-- A number is read up to the comma or the brace after it. -/
theorem jsonInteger_page (hn : n < 32) (hc : c = ',' ∨ c = '}')
    (h : jsonValue json key = afterColon (':' :: (Nat.toDigits 10 n ++ c :: text))) : jsonInteger json key = some n := by
  obtain ⟨d, digits, hd, hdigits, hvalue, hblank⟩ := toDigits_page hn
  have hafter : afterColon (':' :: (Nat.toDigits 10 n ++ c :: text)) = some (Nat.toDigits 10 n ++ c :: text) := by
    show some ((Nat.toDigits 10 n ++ c :: text).dropWhile isBlank) = _
    rw [hd, cons_append, dropWhile_cons, hblank, if_neg Bool.false_ne_true]
  have hrest : ((c :: text).head?.all fun c => !c.isDigit) = true := by
    rcases hc with rfl | rfl
    · rfl
    · rfl
  have hread := strtol_digits (c :: text) hdigits (by rw [hvalue]; omega) hrest
  unfold jsonInteger
  rw [h, hafter, hd]
  simp only [Option.bind_eq_bind, Option.bind_some, hread, hvalue]
  rcases hc with rfl | rfl
  · exact if_pos (.inl rfl)
  · exact if_pos (.inr (.inl rfl))

/-- A plain string is read up to the quote after it. -/
theorem jsonString_plain (word : List Char) {size : Nat} (hplain : ∀ c ∈ word, isPlain c = true)
    (hne : word ≠ []) (hsize : word.length < size) (h : jsonValue json key = some ('"' :: (word ++ '"' :: text))) :
    jsonString json key size = some word := by
  have htake : (word ++ '"' :: text).takeWhile (fun c => c ≠ '"' && c ≠ '\\' && !(c.toNat < 0x20)) = word := by
    rw [takeWhile_append_of_pos]
    · simp
    · intro c hc
      obtain ⟨hlow, -, hquote, hslash⟩ := isPlain_iff.mp (hplain c hc)
      simp only [ne_eq, hquote, hslash, not_false_eq_true, decide_true, Bool.true_and, Bool.not_eq_true',
        decide_eq_false_iff_not]
      omega
  unfold jsonString
  rw [h]
  simp only [htake, drop_left]
  exact if_pos ⟨rfl, hne, hsize⟩

section Parse

variable {decode : List Char → Nat → Option (List Byte)} {r : Request} {id text : List Char}

theorem validExecutionId_of (h : CheckedId id) : validExecutionId id = true := by
  unfold validExecutionId
  simp only [Bool.and_eq_true, decide_eq_true_eq]
  exact ⟨⟨h.1, h.2.1⟩, h.2.2⟩

/-- The version of every request is read. -/
theorem version_request (hr : Checked r) : jsonInteger ('{' :: quoted (pieces r)) "v".toList = some 1 := by
  have hkey : '"' ∉ "v".toList := by decide
  cases r with
  | prepare id page text => exact jsonInteger_page (n := 1) (by omega) (.inl rfl) (jsonValue_request hr _ hkey)
  | commit id page => exact jsonInteger_page (n := 1) (by omega) (.inl rfl) (jsonValue_request hr _ hkey)
  | clear id => exact jsonInteger_page (n := 1) (by omega) (.inl rfl) (jsonValue_request hr _ hkey)
  | reset => exact jsonInteger_page (n := 1) (by omega) (.inl rfl) (jsonValue_request hr _ hkey)

def Request.operation : Request → List Char
  | .prepare _ _ _ => "prepare".toList
  | .commit _ _ => "commit".toList
  | .clear _ => "clear".toList
  | .reset => "reset".toList

@[simp] theorem Request.operation_prepare (id : List Char) (page : Nat) (text : List Char) :
    (Request.prepare id page text).operation = "prepare".toList := rfl

@[simp] theorem Request.operation_commit (id : List Char) (page : Nat) :
    (Request.commit id page).operation = "commit".toList := rfl

@[simp] theorem Request.operation_clear (id : List Char) : (Request.clear id).operation = "clear".toList := rfl

theorem operation_request (hr : Checked r) : jsonString ('{' :: quoted (pieces r)) "op".toList 16 = some r.operation := by
  have hkey : '"' ∉ "op".toList := by decide
  cases r with
  | prepare id page text =>
    exact jsonString_plain "prepare".toList (all_eq_true.mp (by decide)) (by decide) (by decide)
      (jsonValue_request hr _ hkey)
  | commit id page =>
    exact jsonString_plain "commit".toList (all_eq_true.mp (by decide)) (by decide) (by decide)
      (jsonValue_request hr _ hkey)
  | clear id =>
    exact jsonString_plain "clear".toList (all_eq_true.mp (by decide)) (by decide) (by decide)
      (jsonValue_request hr _ hkey)
  | reset =>
    exact jsonString_plain "reset".toList (all_eq_true.mp (by decide)) (by decide) (by decide)
      (jsonValue_request hr _ hkey)

theorem id_request (hr : Checked r) (hid : CheckedId id)
    (hr' : r = .clear id ∨ (∃ page, r = .commit id page) ∨ ∃ page text, r = .prepare id page text) :
    jsonString ('{' :: quoted (pieces r)) "executionId".toList 129 = some id := by
  have hkey : '"' ∉ "executionId".toList := by decide
  have hplain : ∀ c ∈ id, isPlain c = true := fun c hc => isPlain_of_isIdChar (all_eq_true.mp hid.2.2 c hc)
  have hsize : id.length < 129 := Nat.lt_succ_of_le hid.2.1
  rcases hr' with rfl | ⟨page, rfl⟩ | ⟨page, text, rfl⟩
  · exact jsonString_plain _ hplain hid.1 hsize (jsonValue_request hr _ hkey)
  · exact jsonString_plain _ hplain hid.1 hsize (jsonValue_request hr _ hkey)
  · exact jsonString_plain _ hplain hid.1 hsize (jsonValue_request hr _ hkey)

/-- The page is read unless the id is spelled like its key. -/
theorem page_commit {page : Nat} (hr : Checked (.commit id page)) :
    parsePage ('{' :: quoted (pieces (.commit id page))) =
      if id = "page".toList then .error .badPage else .ok page := by
  have hlook := jsonValue_request hr ("page".toList) (by decide)
  have hpage := hr.2
  by_cases hid : id = "page".toList
  · have hnone : jsonValue ('{' :: quoted (pieces (.commit id page))) "page".toList = none := by
      rw [hlook, hid]
      rfl
    rw [if_pos hid]
    unfold parsePage jsonInteger
    rw [hnone]
    rfl
  · have hsome : lookUp "page".toList (pieces (.commit id page)) =
        afterColon (':' :: (Nat.toDigits 10 page ++ '}' :: [])) := by
      show (if id = "page".toList then _ else afterColon (':' :: (Nat.toDigits 10 page ++ ['}']) ++ [])) = _
      rw [if_neg hid, append_nil]
    rw [if_neg hid]
    unfold parsePage
    rw [jsonInteger_page hpage (.inr rfl) (hlook.trans hsome)]
    exact if_neg (by omega)

theorem page_prepare {page : Nat} (hr : Checked (.prepare id page text)) :
    parsePage ('{' :: quoted (pieces (.prepare id page text))) =
      if id = "page".toList then .error .badPage else .ok page := by
  have hlook := jsonValue_request hr ("page".toList) (by decide)
  have hpage := hr.2.1
  by_cases hid : id = "page".toList
  · have hnone : jsonValue ('{' :: quoted (pieces (.prepare id page text))) "page".toList = none := by
      rw [hlook, hid]
      rfl
    rw [if_pos hid]
    unfold parsePage jsonInteger
    rw [hnone]
    rfl
  · have hsome : lookUp "page".toList (pieces (.prepare id page text)) =
        afterColon (':' :: (Nat.toDigits 10 page ++ ',' ::
          quoted ["textBase64".toList, ":".toList, base64 (Client.bytesOf text), "\x7d".toList])) := by
      show (if id = "page".toList then _ else afterColon (':' :: (Nat.toDigits 10 page ++ [',']) ++
        quoted ["textBase64".toList, ":".toList, base64 (Client.bytesOf text), "\x7d".toList])) = _
      rw [if_neg hid, cons_append, append_assoc]
      rfl
    rw [if_neg hid]
    unfold parsePage
    rw [jsonInteger_page hpage (.inl rfl) (hlook.trans hsome)]
    exact if_neg (by omega)

/-- The text is read unless the id is spelled like its key. -/
theorem text_prepare (hdecode : ∀ bytes : List Byte, bytes.length ≤ maxText → decode (base64 bytes) maxText = some bytes)
    {page : Nat} (hr : Checked (.prepare id page text)) :
    parseText decode ('{' :: quoted (pieces (.prepare id page text))) =
      if id = "textBase64".toList then .error .badText else .ok text := by
  have hlook := jsonValue_request hr ("textBase64".toList) (by decide)
  obtain ⟨hlength, hvalid, hback⟩ := hr.2.2.valid
  by_cases hid : id = "textBase64".toList
  · have hnone : jsonValue ('{' :: quoted (pieces (.prepare id page text))) "textBase64".toList = none := by
      rw [hlook, hid]
      rfl
    rw [if_pos hid]
    unfold parseText jsonString
    rw [hnone]
  · have hbytes : (Client.bytesOf text).length = text.length := length_map _
    have hdigits : (':' :: (Nat.toDigits 10 page ++ [','])) ≠ "textBase64".toList := by
      intro h
      have hcons := List.cons.inj (h.trans (show "textBase64".toList = 't' :: "extBase64".toList from rfl))
      exact absurd hcons.1 (by decide)
    have hsome : lookUp "textBase64".toList (pieces (.prepare id page text)) =
        some ('"' :: (base64 (Client.bytesOf text) ++ '"' :: "\x7d".toList)) := by
      unfold pieces
      rw [lookUp_ne (by decide), lookUp_ne (by decide), lookUp_ne (by decide), lookUp_ne (by decide),
        lookUp_ne (by decide), lookUp_ne (by decide), lookUp_ne (by decide), lookUp_ne (by decide), lookUp_ne hid,
        lookUp_ne (by decide), lookUp_ne (by decide), lookUp_ne hdigits]
      exact if_pos rfl
    have hne : base64 (Client.bytesOf text) ≠ [] := by
      have hlen := length_base64 (Client.bytesOf text)
      have hpos : 1 ≤ (Client.bytesOf text).length := by
        unfold validateText at hvalid
        simp only [Bool.and_eq_true, decide_eq_true_eq] at hvalid
        exact hvalid.1.1
      intro hnil
      rw [hnil] at hlen
      simp only [length_nil] at hlen
      omega
    have hsize : (base64 (Client.bytesOf text)).length < 256 := by
      rw [length_base64]
      omega
    have hplain : ∀ c ∈ base64 (Client.bytesOf text), isPlain c = true := fun c hc =>
      isPlain_of_isBase64 (mem_base64 _ c hc)
    rw [if_neg hid]
    unfold parseText
    rw [jsonString_plain _ hplain hne hsize (hlook.trans hsome)]
    dsimp only
    rw [hdecode _ (by rw [hbytes]; exact hlength)]
    dsimp only
    rw [if_pos hvalid, hback]

end Parse

/-! ## Agreement -/

theorem length_quoted (pieces : List (List Char)) :
    (quoted pieces).length = (pieces.map fun p => p.length + 1).sum := by
  induction pieces with
  | nil => rfl
  | cons piece pieces ih =>
    simp only [quoted, length_cons, length_append, map_cons, sum_cons, ih]
    omega

/-- Every checked request is sent, and its line is the pieces. -/
theorem request_ok (hr : Checked r) :
    ∃ wire, Client.request r = .ok wire ∧ lineOf wire = '{' :: quoted (pieces r) := by
  refine ⟨Client.dumps (Client.payload r) ++ ['\n'], ?_, lineOf_pieces hr⟩
  have hdigits : ∀ n : Fin 32, (Nat.toDigits 10 n).length ≤ 2 := by decide
  have hshort : (quoted (pieces r)).length ≤ 1000 := by
    rw [length_quoted]
    cases r with
    | prepare id page text =>
      have hpage := hdigits ⟨page, hr.2.1⟩
      have hid := hr.1.2.1
      have htext := hr.2.2.valid.1
      have hbytes : (Client.bytesOf text).length = text.length := length_map _
      have hencoded : (base64 (Client.bytesOf text)).length ≤ 88 := by
        rw [length_base64, hbytes]
        omega
      simp [pieces]
      simp at hpage
      omega
    | commit id page =>
      have hpage := hdigits ⟨page, hr.2⟩
      have hid := hr.1.2.1
      simp [pieces]
      simp at hpage
      omega
    | clear id =>
      have hid := hr.2.1
      simp [pieces]
      omega
    | reset => decide
  unfold Client.request Client.maxMessageBytes
  rw [if_neg]
  · rfl
  · rw [dumps_pieces hr]
    simp only [length_append, length_cons, length_nil]
    omega

/-- **The wire agreement.** What the client checks, it sends; and the filter reads exactly the request in the line,
unless the execution id is spelled like the key of the page or of the text. -/
theorem parse_request_iff (nfkd : List Char → List Char) (decode : List Char → Nat → Option (List Byte))
    (hdecode : ∀ bytes : List Byte, bytes.length ≤ maxText → decode (base64 bytes) maxText = some bytes)
    (op : Client.Operation) (r : Request) (hr : Client.check nfkd op = .ok r) :
    ∃ wire, Client.request r = .ok wire ∧
      (parseRequest decode (lineOf wire) = .ok (.request r) ↔ ¬ r.Mistaken) := by
  have hr := check_ok hr
  obtain ⟨wire, hwire, hline⟩ := request_ok hr
  refine ⟨wire, hwire, ?_⟩
  rw [hline]
  unfold parseRequest
  rw [version_request hr, operation_request hr]
  have hreset : ∀ name ∈ ["prepare".toList, "commit".toList, "clear".toList], name ≠ "reset".toList := by decide
  have hprepare : ∀ name ∈ ["commit".toList, "clear".toList], name ≠ "prepare".toList := by decide
  have hcommit : "clear".toList ≠ "commit".toList := by decide
  cases r with
  | prepare id page text =>
    rw [id_request hr hr.1 (.inr (.inr ⟨page, text, rfl⟩)), page_prepare hr, text_prepare hdecode hr]
    simp only [Request.operation_prepare, pure_bind, if_neg (hreset "prepare".toList (by decide)), validExecutionId_of hr.1, if_true]
    by_cases hpage : id = "page".toList
    · rw [if_pos hpage]
      exact ⟨fun h => (nomatch h), fun h => absurd (.inl hpage) h⟩
    · by_cases htext : id = "textBase64".toList
      · rw [if_neg hpage, if_pos htext]
        exact ⟨fun h => (nomatch h), fun h => absurd (.inr htext) h⟩
      · rw [if_neg hpage, if_neg htext]
        exact ⟨fun _ h => h.elim hpage htext, fun _ => rfl⟩
  | commit id page =>
    rw [id_request hr hr.1 (.inr (.inl ⟨page, rfl⟩)), page_commit hr]
    simp only [Request.operation_commit, pure_bind, if_neg (hreset "commit".toList (by decide)), validExecutionId_of hr.1, if_true,
      if_neg (hprepare "commit".toList (by decide))]
    by_cases hpage : id = "page".toList
    · rw [if_pos hpage]
      exact ⟨fun h => (nomatch h), fun h => absurd hpage h⟩
    · rw [if_neg hpage]
      exact ⟨fun _ h => hpage h, fun _ => rfl⟩
  | clear id =>
    rw [id_request hr hr (.inl rfl)]
    simp only [Request.operation_clear, pure_bind, if_neg (hreset "clear".toList (by decide)), validExecutionId_of hr, if_true,
      if_neg (hprepare "clear".toList (by decide)), if_neg hcommit]
    exact ⟨fun _ h => h, fun _ => rfl⟩
  | reset => exact ⟨fun _ h => h, fun _ => rfl⟩

/-- A caption that is prepared under the id `speech-1`. -/
def plainOperation : Client.Operation := .prepare "speech-1".toList 3 "Hello\nworld".toList

theorem parse_request_plain : ∃ r wire, Client.check id plainOperation = .ok r ∧ Client.request r = .ok wire ∧
    parseRequest (fun encoded _ => some (Wire.unbase64 encoded)) (lineOf wire) = .ok (.request r) := by
  have hcheck : Client.check id plainOperation =
      .ok (.prepare "speech-1".toList 3 "Hello\nworld".toList) := by decide
  obtain ⟨wire, hwire, hiff⟩ := parse_request_iff id (fun encoded _ => some (Wire.unbase64 encoded))
    (fun bytes _ => congrArg some (unbase64_base64 bytes)) plainOperation _ hcheck
  exact ⟨_, wire, hcheck, hwire, hiff.mpr (by unfold Request.Mistaken; decide)⟩

/-- The id `page` is found for the key of the page. -/
theorem parse_request_mistaken : ∃ r wire,
    Client.check id (.commit "page".toList 3) = .ok r ∧ Client.request r = .ok wire ∧
      parseRequest (fun encoded _ => some (Wire.unbase64 encoded)) (lineOf wire) = .error .badPage :=
  ⟨.commit "page".toList 3, "\x7b\"v\":1,\"op\":\"commit\",\"executionId\":\"page\",\"page\":3\x7d\n".toList,
    by decide, by decide, by decide⟩

end Docich.Captions
