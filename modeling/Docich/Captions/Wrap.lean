import Docich.Captions.Text
import Mathlib.Data.List.Flatten
import Mathlib.Data.List.Infix
import Mathlib.Data.List.TakeWhile

/-!
# Wrapping

How `textwrap.TextWrapper` breaks a text into lines, without breaks at hyphens, and what it does with a normal text: its
words with single spaces between them.
-/

namespace Docich.Captions

open List

/-! ## The wrapper -/

def isWrapSpace (c : Char) : Bool := (9 ≤ c.toNat && c.toNat ≤ 13) || c = ' '

/-- The text in runs of spaces and runs of others. -/
def splitChunks : List Char → List (List Char)
  | [] => []
  | c :: text =>
    match splitChunks text with
    | (d :: chunk) :: chunks =>
      if isWrapSpace c = isWrapSpace d then (c :: d :: chunk) :: chunks else [c] :: (d :: chunk) :: chunks
    | chunks => [c] :: chunks

def isBlankChunk (chunk : List Char) : Bool := chunk.all isSpace

/-- The chunks that fit on a line from a column on, and the chunks after them. -/
def takeFit (width : Nat) : Nat → List (List Char) → List (List Char) × List (List Char)
  | _, [] => ([], [])
  | columns, chunk :: chunks =>
    if columns + chunk.length ≤ width then
      (chunk :: (takeFit width (columns + chunk.length) chunks).1, (takeFit width (columns + chunk.length) chunks).2)
    else ([], chunk :: chunks)

/-- A chunk that is longer than a line fills the line up. -/
def handleLongWord (width : Nat) (line : List (List Char)) : List (List Char) → List (List Char) × List (List Char)
  | [] => (line, [])
  | chunk :: chunks =>
    if width < chunk.length then
      (line ++ [chunk.take (width - line.flatten.length)], chunk.drop (width - line.flatten.length) :: chunks)
    else (line, chunk :: chunks)

def dropBlank (line : List (List Char)) : List (List Char) :=
  match line.getLast? with
  | some chunk => if isBlankChunk chunk then line.dropLast else line
  | none => line

def dropStart (started : Bool) : List (List Char) → List (List Char)
  | [] => []
  | chunk :: chunks => if started && isBlankChunk chunk then chunks else chunk :: chunks

/-- The lines; `started` once there is one. Every round takes at least one character. -/
def wrapFrom (width : Nat) : Nat → Bool → List (List Char) → List (List Char)
  | 0, _, _ => []
  | _ + 1, _, [] => []
  | n + 1, started, chunk :: chunks =>
    let fit := takeFit width 0 (dropStart started (chunk :: chunks))
    let long := handleLongWord width fit.1 fit.2
    let line := dropBlank long.1
    if line = [] then wrapFrom width n started long.2 else line.flatten :: wrapFrom width n true long.2

def wrap (width : Nat) (text : List Char) : List (List Char) :=
  wrapFrom width (text.length + 1) false (splitChunks (text.map fun c => if isWrapSpace c then ' ' else c))

/-! ## Normal texts -/

structure IsWord (word : List Char) : Prop where
  ne : word ≠ []
  chars : ∀ c ∈ word, isPrintable c = true ∧ c ≠ ' '

/-- Words with single spaces between them. -/
inductive Alternating : List (List Char) → Prop
  | one {word : List Char} (h : IsWord word) : Alternating [word]
  | cons {word : List Char} {chunks : List (List Char)} (h : IsWord word) (rest : Alternating chunks) :
      Alternating (word :: [' '] :: chunks)

/-- A text of words with single spaces between them. -/
def Normal (text : List Char) : Prop := ∃ chunks, Alternating chunks ∧ chunks.flatten = text

variable {c : Char} {line chunk : List Char} {n : Nat} {started : Bool}

theorem isSpace_printable (h : isPrintable c = true) : isSpace c = decide (c = ' ') := by
  have hrange : 0x20 ≤ c.toNat ∧ c.toNat ≤ 0x7e := by simpa [isPrintable] using h
  by_cases hc : c = ' '
  · rw [hc]
    rfl
  · have hne : c.toNat ≠ 0x20 := fun he => hc (Char.toNat_inj.mp he)
    rw [decide_eq_false hc]
    simp only [isSpace, Bool.or_eq_false_iff, Bool.and_eq_false_iff, decide_eq_false_iff_not]
    omega

theorem isWrapSpace_printable (h : isPrintable c = true) : isWrapSpace c = decide (c = ' ') := by
  have hrange : 0x20 ≤ c.toNat ∧ c.toNat ≤ 0x7e := by simpa [isPrintable] using h
  by_cases hc : c = ' '
  · rw [hc]
    rfl
  · simp only [isWrapSpace, hc, decide_false, Bool.or_false, Bool.and_eq_false_iff, decide_eq_false_iff_not]
    omega

variable {word text : List Char} {chunks : List (List Char)} {width : Nat} {nfkd : List Char → List Char}

variable (h : IsWord word)

include h

theorem IsWord.not_space (hc : c ∈ word) : isSpace c = false := by
  obtain ⟨hp, hne⟩ := h.chars c hc
  rw [isSpace_printable hp, decide_eq_false hne]

theorem IsWord.not_wrapSpace (hc : c ∈ word) : isWrapSpace c = false := by
  obtain ⟨hp, hne⟩ := h.chars c hc
  rw [isWrapSpace_printable hp, decide_eq_false hne]

theorem IsWord.not_blank : isBlankChunk word = false := by
  obtain ⟨c, rest, rfl⟩ := exists_cons_of_ne_nil h.ne
  simp [isBlankChunk, h.not_space mem_cons_self]

omit h

namespace Alternating

variable {chunks : List (List Char)}

theorem head (h : Alternating chunks) : ∃ word rest, chunks = word :: rest ∧ IsWord word := by
  cases h with
  | one hw => exact ⟨_, _, rfl, hw⟩
  | cons hw _ => exact ⟨_, _, rfl, hw⟩

theorem printable (h : Alternating chunks) : ∀ c ∈ chunks.flatten, isPrintable c = true := by
  induction h with
  | one hw => simpa using fun c hc => (hw.chars c hc).1
  | cons hw _ ih =>
    intro c hc
    simp only [flatten_cons, mem_append, mem_singleton] at hc
    rcases hc with hc | rfl | hc
    · exact (hw.chars c hc).1
    · rfl
    · exact ih c hc

theorem ne_nil (h : Alternating chunks) : chunks ≠ [] := by
  cases h <;> simp

theorem flatten_ne_nil (h : Alternating chunks) : chunks.flatten ≠ [] := by
  cases h with
  | one hw => simpa using hw.ne
  | cons hw _ => simp

/-- The last character belongs to a word. -/
theorem last (h : Alternating chunks) : ∃ front c, chunks.flatten = front ++ [c] ∧ isPrintable c = true ∧ c ≠ ' ' := by
  induction h with
  | @one word hw =>
    obtain ⟨front, c, rfl⟩ := (eq_nil_or_concat word).resolve_left hw.ne
    obtain ⟨hp, hne⟩ := hw.chars c (by simp)
    exact ⟨front, c, by simp, hp, hne⟩
  | @cons word chunks hw _ ih =>
    obtain ⟨front, c, hf, hp, hne⟩ := ih
    exact ⟨word ++ ' ' :: front, c, by simp [hf], hp, hne⟩

end Alternating

/-! ## Splitting -/

include h

theorem splitChunks_word : splitChunks word = [word] := by
  obtain ⟨hne, hchars⟩ := h
  induction word with
  | nil => exact absurd rfl hne
  | cons c word ih =>
    rcases word with _ | ⟨d, word⟩
    · rfl
    · have hrest := ih (by simp) fun e he => hchars e (mem_cons_of_mem _ he)
      have hw : IsWord (c :: d :: word) := ⟨hne, hchars⟩
      rw [splitChunks, hrest]
      dsimp only
      rw [if_pos]
      rw [hw.not_wrapSpace mem_cons_self, hw.not_wrapSpace (mem_cons_of_mem _ mem_cons_self)]

/-- A word before a space is a chunk. -/
theorem splitChunks_word_append (hs : splitChunks (' ' :: text) = [' '] :: chunks) :
    splitChunks (word ++ ' ' :: text) = word :: [' '] :: chunks := by
  obtain ⟨hne, hchars⟩ := h
  induction word with
  | nil => exact absurd rfl hne
  | cons c word ih =>
    have hc : isWrapSpace c = false := by
      have hw : IsWord (c :: word) := ⟨hne, hchars⟩
      exact hw.not_wrapSpace mem_cons_self
    rw [cons_append, splitChunks]
    rcases word with _ | ⟨d, word⟩
    · rw [nil_append, hs]
      dsimp only
      rw [if_neg]
      rw [hc]
      decide
    · have hd : isWrapSpace d = false := by
        have hw : IsWord (c :: d :: word) := ⟨hne, hchars⟩
        exact hw.not_wrapSpace (mem_cons_of_mem _ mem_cons_self)
      rw [ih (by simp) fun e he => hchars e (mem_cons_of_mem _ he)]
      dsimp only
      rw [if_pos (hc.trans hd.symm)]

omit h

theorem splitChunks_flatten (h : Alternating chunks) : splitChunks chunks.flatten = chunks := by
  induction h with
  | one hw => simpa using splitChunks_word hw
  | @cons word chunks hw hrest ih =>
    have hspace : splitChunks (' ' :: chunks.flatten) = [' '] :: chunks := by
      rw [splitChunks, ih]
      obtain ⟨next, rest, rfl, hnext⟩ := hrest.head
      obtain ⟨d, next, rfl⟩ := exists_cons_of_ne_nil hnext.ne
      dsimp only
      rw [if_neg]
      rw [hnext.not_wrapSpace mem_cons_self]
      decide
    show splitChunks (word ++ ' ' :: chunks.flatten) = _
    exact splitChunks_word_append hw hspace

theorem replace_printable (h : ∀ c ∈ text, isPrintable c = true) :
    (text.map fun c => if isWrapSpace c then ' ' else c) = text := by
  have hid : (text.map fun c => if isWrapSpace c then ' ' else c) = text.map id := by
    apply map_congr_left
    intro c hc
    rw [isWrapSpace_printable (h c hc)]
    by_cases he : c = ' ' <;> simp [he]
  rw [hid, map_id]

/-! ## Lines of words that fit -/

/-- Of words that fit on a line, a line takes some and drops the space behind them. -/
theorem takeFit_alternating (width columns : Nat) (h : Alternating chunks)
    (hfirst : ∀ word rest, chunks = word :: rest → columns + word.length ≤ width) :
    ∃ line, Alternating line ∧ columns + line.flatten.length ≤ width ∧
      ((chunks = line ∧ takeFit width columns chunks = (line, [])) ∨
        ∃ rest, Alternating rest ∧ chunks = line ++ [' '] :: rest ∧
          (takeFit width columns chunks = (line, [' '] :: rest) ∨
            takeFit width columns chunks = (line ++ [[' ']], rest))) := by
  induction h generalizing columns with
  | @one word hw =>
    have hfit := hfirst word [] rfl
    refine ⟨[word], .one hw, by simpa using hfit, .inl ⟨rfl, ?_⟩⟩
    simp [takeFit, hfit]
  | @cons word chunks hw hrest ih =>
    have hfit := hfirst word _ rfl
    have hone : Alternating [word] := .one hw
    by_cases hspace : columns + word.length + 1 ≤ width
    · obtain ⟨next, after, rfl, hnext⟩ := hrest.head
      by_cases hmore : columns + word.length + 1 + next.length ≤ width
      · obtain ⟨line, hline, hlength, hcases⟩ := ih (columns + word.length + 1) fun w r he => by
          cases he
          exact hmore
        refine ⟨word :: [' '] :: line, .cons hw hline, ?_, ?_⟩
        · simp only [flatten_cons, length_append, length_singleton]
          omega
        · have htake : takeFit width columns (word :: [' '] :: next :: after) =
              (word :: [' '] :: (takeFit width (columns + word.length + 1) (next :: after)).1,
                (takeFit width (columns + word.length + 1) (next :: after)).2) := by
            rw [takeFit, if_pos hfit, takeFit, length_singleton, if_pos hspace]
          rw [htake]
          rcases hcases with ⟨he, ht⟩ | ⟨rest, halt, he, ht | ht⟩
          · exact .inl ⟨by rw [he], by rw [ht]⟩
          · exact .inr ⟨rest, halt, by rw [he]; rfl, .inl (by rw [ht])⟩
          · exact .inr ⟨rest, halt, by rw [he]; rfl, .inr (by rw [ht]; rfl)⟩
      · refine ⟨[word], hone, by simpa using hfit, .inr ⟨next :: after, hrest, rfl, .inr ?_⟩⟩
        rw [takeFit, if_pos hfit, takeFit, length_singleton, if_pos hspace, takeFit, if_neg hmore]
        rfl
    · refine ⟨[word], hone, by simpa using hfit, .inr ⟨chunks, hrest, rfl, .inl ?_⟩⟩
      rw [takeFit, if_pos hfit, takeFit, length_singleton, if_neg hspace]

theorem dropBlank_alternating {line : List (List Char)} (h : Alternating line) :
    dropBlank line = line ∧ dropBlank (line ++ [[' ']]) = line := by
  refine ⟨?_, ?_⟩
  · have hlast : ∃ front word, line = front ++ [word] ∧ IsWord word := by
      induction h with
      | one hw => exact ⟨[], _, rfl, hw⟩
      | @cons word chunks hw _ ih =>
        obtain ⟨front, last, rfl, hlast⟩ := ih
        exact ⟨word :: [' '] :: front, last, rfl, hlast⟩
    obtain ⟨front, word, rfl, hword⟩ := hlast
    simp [dropBlank, hword.not_blank]
  · have hblank : isBlankChunk [' '] = true := by decide
    simp [dropBlank, hblank]

/-- What the wrapper makes of words that fit: lines of words, which joined by spaces are the text. -/
structure Wrapped (width : Nat) (chunks lines : List (List Char)) : Prop where
  ne : lines ≠ []
  join : [' '].intercalate lines = chunks.flatten
  normal : ∀ line ∈ lines, Normal line
  fits : ∀ line ∈ lines, line.length ≤ width

theorem intercalate_cons {lines : List (List Char)} (h : lines ≠ []) :
    [' '].intercalate (line :: lines) = line ++ ' ' :: [' '].intercalate lines := by
  obtain ⟨next, rest, rfl⟩ := exists_cons_of_ne_nil h
  simp [intercalate_cons_cons]

theorem wrapFrom_alternating (h : Alternating chunks)
    (hwidth : 1 ≤ width) (hwords : ∀ word ∈ chunks, word.length ≤ width) (hn : chunks.length < n) :
    Wrapped width chunks (wrapFrom width n started chunks) := by
  induction n generalizing started chunks with
  | zero => omega
  | succ n ih =>
    obtain ⟨first, after, rfl, hfirst⟩ := h.head
    have hstart : dropStart started (first :: after) = first :: after := by
      simp [dropStart, hfirst.not_blank]
    obtain ⟨line, hline, hlength, hcases⟩ := takeFit_alternating width 0 h fun w r he => by
      cases he
      simpa using hwords _ mem_cons_self
    obtain ⟨hkeep, hdrop⟩ := dropBlank_alternating hline
    have hnormal : Normal line.flatten := ⟨line, hline, rfl⟩
    have hfits : line.flatten.length ≤ width := by omega
    rw [wrapFrom, hstart]
    rcases hcases with ⟨he, ht⟩ | ⟨rest, halt, he, ht⟩
    · rw [ht]
      simp only [handleLongWord, hkeep, hline.ne_nil, if_false]
      have hnil : wrapFrom width n true [] = [] := by cases n <;> rfl
      rw [hnil]
      exact ⟨by simp, by simp [he], by simpa using hnormal, by simpa using hfits⟩
    · have hshort : rest.length < n := by
        have := congrArg List.length he
        simp only [length_append, length_cons] at this hn
        omega
      have hrest : ∀ word ∈ rest, word.length ≤ width := fun word hw => hwords word (by rw [he]; simp [hw])
      -- the space behind the line is dropped here, or at the start of the next line
      have hnext : ∀ tail, tail = rest ∨ tail = [' '] :: rest → Wrapped width rest (wrapFrom width n true tail) := by
        rintro tail (rfl | rfl)
        · exact ih halt hrest hshort
        · have hsame : wrapFrom width n true ([' '] :: rest) = wrapFrom width n true rest := by
            obtain ⟨next, later, rfl, hnext⟩ := halt.head
            cases n with
            | zero => rfl
            | succ n =>
              have hblank : isBlankChunk [' '] = true := by decide
              rw [wrapFrom, wrapFrom]
              simp only [dropStart, hblank, hnext.not_blank, Bool.and_true, Bool.and_false, if_true, Bool.false_eq_true,
                if_false]
          rw [hsame]
          exact ih halt hrest hshort
      have hflat : (first :: after).flatten = line.flatten ++ ' ' :: rest.flatten := by
        rw [he]
        simp
      have hassemble : ∀ lines, Wrapped width rest lines → Wrapped width (first :: after) (line.flatten :: lines) := by
        intro lines hw
        refine ⟨by simp, ?_, ?_, ?_⟩
        · rw [intercalate_cons hw.ne, hw.join, hflat]
        · intro l hl
          rcases mem_cons.mp hl with rfl | hl
          · exact hnormal
          · exact hw.normal l hl
        · intro l hl
          rcases mem_cons.mp hl with rfl | hl
          · exact hfits
          · exact hw.fits l hl
      rcases ht with ht | ht
      · have hlong : handleLongWord width line ([' '] :: rest) = (line, [' '] :: rest) := by
          rw [handleLongWord, if_neg]
          simp only [length_singleton]
          omega
        rw [ht]
        rw [hlong, hkeep, if_neg hline.ne_nil]
        exact hassemble _ (hnext _ (.inr rfl))
      · obtain ⟨next, later, rfl, hnextw⟩ := halt.head
        have hlong : handleLongWord width (line ++ [[' ']]) (next :: later) = (line ++ [[' ']], next :: later) := by
          rw [handleLongWord, if_neg]
          exact not_lt.mpr (hrest next mem_cons_self)
        rw [ht]
        rw [hlong, hdrop, if_neg hline.ne_nil]
        exact hassemble _ (hnext _ (.inl rfl))

/-- A text of words that fit is wrapped without loss. -/
theorem wrap_normal (h : Alternating chunks) (hwidth : 1 ≤ width)
    (hwords : ∀ word ∈ chunks, word.length ≤ width) : Wrapped width chunks (wrap width chunks.flatten) := by
  have hlength : chunks.length < chunks.flatten.length + 1 := by
    clear hwords
    induction h with
    | one hw =>
      have := length_pos_iff.mpr hw.ne
      simp only [length_cons, length_nil, flatten_cons, flatten_nil, append_nil]
      omega
    | cons hw _ ih =>
      have := length_pos_iff.mpr hw.ne
      simp only [length_cons, flatten_cons, length_append, length_nil] at ih ⊢
      omega
  unfold wrap
  rw [replace_printable h.printable, splitChunks_flatten h]
  exact wrapFrom_alternating h hwidth hwords hlength

/-! ## Normal forms -/

include h in
theorem collapseFrom_word (after : Bool) :
    collapseFrom after (word ++ text) = word ++ collapseFrom false text := by
  obtain ⟨hne, hchars⟩ := h
  induction word generalizing after with
  | nil => exact absurd rfl hne
  | cons c word ih =>
    have hw : IsWord (c :: word) := ⟨hne, hchars⟩
    rw [cons_append, collapseFrom, hw.not_space mem_cons_self, if_neg Bool.false_ne_true]
    rcases word with _ | ⟨d, word⟩
    · rfl
    · rw [ih false (by simp) fun e he => hchars e (mem_cons_of_mem _ he)]
      rfl

theorem collapseFrom_alternating (h : Alternating chunks) (after : Bool) :
    collapseFrom after chunks.flatten = chunks.flatten := by
  induction h generalizing after with
  | one hw =>
    rw [flatten_cons, flatten_nil, collapseFrom_word hw]
    rfl
  | @cons word chunks hw _ ih =>
    rw [flatten_cons, collapseFrom_word hw]
    show word ++ ' ' :: collapseFrom true chunks.flatten = _
    rw [ih true]
    rfl

theorem dropWhile_head (h : isSpace c = false) : (c :: text).dropWhile isSpace = c :: text := by
  rw [dropWhile_cons_of_neg (by simp [h])]

/-- Stripping removes the spaces around a text that starts and ends with others. -/
theorem strip_core (h : Alternating chunks) {lead trail : List Char}
    (hlead : lead = [] ∨ lead = [' ']) (htrail : trail = [] ∨ trail = [' ']) :
    strip (lead ++ chunks.flatten ++ trail) = chunks.flatten := by
  obtain ⟨word, rest, he, hword⟩ := h.head
  obtain ⟨c, tail, rfl⟩ := exists_cons_of_ne_nil hword.ne
  have hfirst : ∃ text, chunks.flatten = c :: text := ⟨tail ++ rest.flatten, by rw [he]; rfl⟩
  obtain ⟨text, htext⟩ := hfirst
  obtain ⟨front, z, hlast, hz, hzne⟩ := h.last
  have hzspace : isSpace z = false := by rw [isSpace_printable hz, decide_eq_false hzne]
  have hspace : isSpace ' ' = true := by decide
  have hdrop : (lead ++ chunks.flatten ++ trail).dropWhile isSpace = chunks.flatten ++ trail := by
    rcases hlead with rfl | rfl
    · rw [nil_append, htext, cons_append, dropWhile_head (hword.not_space mem_cons_self)]
    · rw [htext, cons_append, cons_append, nil_append, dropWhile_cons_of_pos hspace,
        cons_append, dropWhile_head (hword.not_space mem_cons_self)]
  unfold strip
  rw [hdrop, hlast]
  rcases htrail with rfl | rfl
  · rw [append_nil, reverse_append, reverse_singleton, singleton_append, dropWhile_head hzspace]
    simp
  · rw [reverse_append, reverse_singleton, singleton_append, dropWhile_cons_of_pos hspace,
      reverse_append, reverse_singleton, singleton_append, dropWhile_head hzspace]
    simp

/-- What collapsing leaves of a printable text: words with single spaces between them, and perhaps one around. -/
theorem collapseFrom_shape (h : ∀ c ∈ text, isPrintable c = true) (after : Bool) :
    collapseFrom after text = [] ∨ (collapseFrom after text = [' '] ∧ after = false) ∨
      ∃ lead chunks trail, Alternating chunks ∧ (lead = [] ∨ lead = [' '] ∧ after = false) ∧
        (trail = [] ∨ trail = [' ']) ∧ collapseFrom after text = lead ++ chunks.flatten ++ trail := by
  induction text generalizing after with
  | nil => exact .inl rfl
  | cons c text ih =>
    have hc := h c mem_cons_self
    have htext := fun d hd => h d (mem_cons_of_mem _ hd)
    rw [collapseFrom, isSpace_printable hc]
    by_cases hspace : c = ' '
    · rw [decide_eq_true hspace, if_pos rfl]
      cases after with
      | true =>
        rcases ih htext true with h | ⟨-, h⟩ | h
        · exact .inl h
        · cases h
        · exact .inr (.inr h)
      | false =>
        rcases ih htext true with h | ⟨-, h⟩ | ⟨lead, chunks, trail, halt, hlead, htrail, he⟩
        · rw [h]
          exact .inr (.inl ⟨rfl, rfl⟩)
        · cases h
        · obtain rfl : lead = [] := hlead.resolve_right fun h => nomatch h.2
          rw [he]
          exact .inr (.inr ⟨[' '], chunks, trail, halt, .inr ⟨rfl, rfl⟩, htrail, by simp⟩)
    · rw [decide_eq_false hspace, if_neg Bool.false_ne_true]
      have hword : IsWord [c] := ⟨by simp, by simpa using ⟨hc, hspace⟩⟩
      rcases ih htext false with h | ⟨h, -⟩ | ⟨lead, chunks, trail, halt, hlead, htrail, he⟩
      · rw [h]
        exact .inr (.inr ⟨[], [[c]], [], .one hword, .inl rfl, .inl rfl, rfl⟩)
      · rw [h]
        exact .inr (.inr ⟨[], [[c]], [' '], .one hword, .inl rfl, .inr rfl, rfl⟩)
      · rw [he]
        rcases hlead with rfl | ⟨rfl, -⟩
        · -- the character extends the first word
          obtain ⟨word, rest, rfl, hw⟩ := halt.head
          have hlong : IsWord (c :: word) := by
            refine ⟨by simp, fun d hd => ?_⟩
            rcases mem_cons.mp hd with rfl | hd
            · exact ⟨hc, hspace⟩
            · exact hw.chars d hd
          refine .inr (.inr ⟨[], (c :: word) :: rest, trail, ?_, .inl rfl, htrail, rfl⟩)
          cases halt with
          | one _ => exact .one hlong
          | cons _ hrest => exact .cons hlong hrest
        · exact .inr (.inr ⟨[], [c] :: [' '] :: chunks, trail, .cons hword halt, .inl rfl, htrail, by simp⟩)

/-- The results of the normalization are normal. -/
theorem normal_of_normalize {value : List Char} (h : normalizeCaptionText nfkd value = .ok text) : Normal text := by
  unfold normalizeCaptionText at h
  dsimp only at h
  generalize hv : ((nfkd (value.flatMap punctuation)).filter fun c => decide (c.toNat < 128)).map
    (fun c => if isPrintable c then c else ' ') = printed at h
  have hprinted : ∀ c ∈ printed, isPrintable c = true := by
    rw [← hv]
    intro c hc
    obtain ⟨d, -, rfl⟩ := mem_map.mp hc
    split
    · next hd => exact hd
    · rfl
  split at h
  · cases h
  · next hne =>
    cases h
    rcases collapseFrom_shape hprinted false with he | ⟨he, -⟩ | ⟨lead, chunks, trail, halt, hlead, htrail, he⟩
    · rw [he] at hne
      exact absurd rfl hne
    · rw [he] at hne
      exact absurd (by decide) hne
    · refine ⟨chunks, halt, ?_⟩
      rw [he, strip_core halt (hlead.imp_right And.left) htrail]

/-- The decomposition leaves ASCII texts as they are. -/
def KeepsAscii (nfkd : List Char → List Char) : Prop :=
  ∀ text : List Char, (∀ c ∈ text, c.toNat < 128) → nfkd text = text

theorem punctuation_printable (h : isPrintable c = true) : punctuation c = [c] := by
  have hrange : c.toNat ≤ 0x7e := by
    have : 0x20 ≤ c.toNat ∧ c.toNat ≤ 0x7e := by simpa [isPrintable] using h
    exact this.2
  have hne : ∀ d : Char, 0x7e < d.toNat → c ≠ d := by
    rintro d hd rfl
    omega
  unfold punctuation
  rw [if_neg, if_neg, if_neg, if_neg, if_neg]
  · exact hne _ (by decide)
  · exact hne _ (by decide)
  · simp only [mem_cons, not_mem_nil, or_false, not_or]
    exact ⟨hne _ (by decide), hne _ (by decide), hne _ (by decide), hne _ (by decide), hne _ (by decide),
      hne _ (by decide), hne _ (by decide)⟩
  · simp only [mem_cons, not_mem_nil, or_false, not_or]
    exact ⟨hne _ (by decide), hne _ (by decide), hne _ (by decide), hne _ (by decide)⟩
  · simp only [mem_cons, not_mem_nil, or_false, not_or]
    exact ⟨hne _ (by decide), hne _ (by decide), hne _ (by decide), hne _ (by decide)⟩

/-- Of a printable text, only its spaces are normalized. -/
theorem normalize_printable (hnfkd : KeepsAscii nfkd)
    (hprint : ∀ c ∈ text, isPrintable c = true) (hne : strip (collapseFrom false text) ≠ []) :
    normalizeCaptionText nfkd text = .ok (strip (collapseFrom false text)) := by
  have hascii : ∀ c ∈ text, c.toNat < 128 := by
    intro c hc
    have : 0x20 ≤ c.toNat ∧ c.toNat ≤ 0x7e := by simpa [isPrintable] using hprint c hc
    omega
  have hpunctuation : text.flatMap punctuation = text := by
    have : text.flatMap punctuation = text.flatMap fun c => [c] := by
      rw [flatMap_def, flatMap_def, map_congr_left fun c hc => punctuation_printable (hprint c hc)]
    rw [this, flatMap_singleton']
  have hfilter : (text.filter fun c => decide (c.toNat < 128)) = text :=
    filter_eq_self.mpr fun c hc => decide_eq_true (hascii c hc)
  have hmap : (text.map fun c => if isPrintable c then c else ' ') = text := by
    have : (text.map fun c => if isPrintable c then c else ' ') = text.map id :=
      map_congr_left fun c hc => if_pos (hprint c hc)
    rw [this, map_id]
  unfold normalizeCaptionText
  dsimp only
  rw [hpunctuation, hnfkd _ hascii, hfilter, hmap, if_neg hne]
  rfl

/-- A normal text is its own normal form. -/
theorem normalize_of_normal (hnfkd : KeepsAscii nfkd)
    (h : Normal text) : normalizeCaptionText nfkd text = .ok text := by
  obtain ⟨chunks, halt, rfl⟩ := h
  have hstrip : strip (collapseFrom false chunks.flatten) = chunks.flatten := by
    rw [collapseFrom_alternating halt]
    simpa using strip_core halt (.inl rfl) (.inl rfl)
  have hne : strip (collapseFrom false chunks.flatten) ≠ [] := by
    rw [hstrip]
    exact halt.flatten_ne_nil
  rw [normalize_printable hnfkd halt.printable hne, hstrip]

theorem length_collapseFrom (after : Bool) (text : List Char) : (collapseFrom after text).length ≤ text.length := by
  induction text generalizing after with
  | nil => exact le_rfl
  | cons c text ih =>
    rw [collapseFrom]
    have htrue := ih true
    have hfalse := ih false
    split
    · cases after <;> simp <;> omega
    · simpa using hfalse

theorem length_strip (text : List Char) : (strip text).length ≤ text.length := by
  have hfront := (dropWhile_sublist isSpace (l := text)).length_le
  have hback := (dropWhile_sublist isSpace (l := (text.dropWhile isSpace).reverse)).length_le
  rw [strip, length_reverse]
  rw [length_reverse] at hback
  omega

/-! ## Lines of any words -/

/-- A line as it is shown: printable, not indented, and no longer than the screen is wide. -/
structure Shown (width : Nat) (line : List Char) : Prop where
  start : ∃ c rest, line = c :: rest ∧ c ≠ ' '
  printable : ∀ c ∈ line, isPrintable c = true
  fits : line.length ≤ width

theorem Shown.normalize (hnfkd : KeepsAscii nfkd)
    (h : Shown width line) : ∃ text, normalizeCaptionText nfkd line = .ok text ∧ text.length ≤ width := by
  obtain ⟨c, rest, rfl, hc⟩ := h.start
  have hspace : isSpace c = false := by
    rw [isSpace_printable (h.printable c mem_cons_self), decide_eq_false hc]
  have hcollapse : collapseFrom false (c :: rest) = c :: collapseFrom false rest := by
    rw [collapseFrom, hspace, if_neg Bool.false_ne_true]
  have hne : strip (collapseFrom false (c :: rest)) ≠ [] := by
    rw [hcollapse]
    unfold strip
    rw [dropWhile_head hspace]
    intro hnil
    have hall := dropWhile_eq_nil_iff.mp (reverse_eq_nil_iff.mp hnil)
    have hmem : c ∈ (c :: collapseFrom false rest).reverse := mem_reverse.mpr mem_cons_self
    exact absurd (hall c hmem) (by simp [hspace])
  refine ⟨_, normalize_printable hnfkd h.printable hne, ?_⟩
  calc (strip (collapseFrom false (c :: rest))).length
      ≤ (collapseFrom false (c :: rest)).length := length_strip _
    _ ≤ (c :: rest).length := length_collapseFrom _ _
    _ ≤ width := h.fits

/-- What is left of words with single spaces between them, once a line was taken. -/
inductive Left : List (List Char) → Prop
  | nil : Left []
  | words {chunks : List (List Char)} (h : Alternating chunks) : Left chunks
  | space {chunks : List (List Char)} (h : Alternating chunks) : Left ([' '] :: chunks)

include h in
theorem IsWord.drop (hn : n < word.length) : IsWord (word.drop n) := by
  refine ⟨?_, fun c hc => h.chars c (mem_of_mem_drop hc)⟩
  rw [ne_eq, drop_eq_nil_iff]
  omega

theorem Left.tail (h : Left (chunk :: chunks)) : Left chunks := by
  cases h with
  | words h =>
    cases h with
    | one _ => exact .nil
    | cons _ rest => exact .space rest
  | space h => exact .words h

theorem Left.suffix {front : List (List Char)} (h : Left (front ++ chunks)) : Left chunks := by
  induction front with
  | nil => exact h
  | cons chunk front ih => exact ih h.tail

theorem takeFit_append (width columns : Nat) (chunks : List (List Char)) :
    (takeFit width columns chunks).1 ++ (takeFit width columns chunks).2 = chunks := by
  induction chunks generalizing columns with
  | nil => rfl
  | cons chunk chunks ih =>
    rw [takeFit]
    split
    · rw [cons_append, ih]
    · rfl

theorem takeFit_length {columns : Nat} (h : columns ≤ width) (chunks : List (List Char)) :
    columns + (takeFit width columns chunks).1.flatten.length ≤ width := by
  induction chunks generalizing columns with
  | nil => simpa [takeFit] using h
  | cons chunk chunks ih =>
    rw [takeFit]
    split
    · next hfit =>
      have := ih hfit
      rw [flatten_cons, length_append]
      omega
    · simpa using h

theorem dropBlank_start (line : List (List Char)) : dropBlank line <+: line := by
  unfold dropBlank
  split
  · split
    · exact dropLast_prefix line
    · exact prefix_refl line
  · exact prefix_refl line

theorem dropBlank_cons (h : isBlankChunk chunk = false) (line : List (List Char)) :
    ∃ rest, dropBlank (chunk :: line) = chunk :: rest := by
  unfold dropBlank
  rcases line with _ | ⟨next, line⟩
  · exact ⟨[], by simp [h]⟩
  · split
    · split
      · exact ⟨(next :: line).dropLast, rfl⟩
      · exact ⟨next :: line, rfl⟩
    · exact ⟨next :: line, rfl⟩

/-- One round on words: a line that starts with a word, and what is left. -/
theorem round_shown (hwidth : 1 ≤ width) (h : Alternating chunks) : let fit := takeFit width 0 chunks
    let long := handleLongWord width fit.1 fit.2
    Shown width (dropBlank long.1).flatten ∧ Left long.2 := by
  intro fit long
  have happend : fit.1 ++ fit.2 = chunks := takeFit_append width 0 chunks
  have hlength : fit.1.flatten.length ≤ width := by
    have := takeFit_length (Nat.zero_le width) chunks
    rwa [Nat.zero_add] at this
  have hleft : Left (fit.1 ++ fit.2) := happend ▸ .words h
  have hprint := happend ▸ h.printable
  simp only [flatten_append, mem_append] at hprint
  obtain ⟨word, after, hchunks, hword⟩ := h.head
  -- the line with the start of a long word, and the chunks without it
  have hround : Left long.2 ∧ long.1.flatten.length ≤ width ∧ (∀ c ∈ long.1.flatten, isPrintable c = true) ∧
      ∃ first line, long.1 = first :: line ∧ IsWord first := by
    have hstart : ∀ line, fit.1 ≠ [] → ∃ first rest, fit.1 ++ line = first :: rest ∧ IsWord first := by
      intro line hne
      obtain ⟨first, rest, hfit⟩ := exists_cons_of_ne_nil hne
      have : first = word := by
        rw [hfit, hchunks] at happend
        exact (List.cons.inj happend).1
      exact ⟨first, rest ++ line, by rw [hfit]; rfl, this ▸ hword⟩
    show Left (handleLongWord width fit.1 fit.2).2 ∧ (handleLongWord width fit.1 fit.2).1.flatten.length ≤ width ∧
      (∀ c ∈ (handleLongWord width fit.1 fit.2).1.flatten, isPrintable c = true) ∧
      ∃ first line, (handleLongWord width fit.1 fit.2).1 = first :: line ∧ IsWord first
    rcases hrest : fit.2 with _ | ⟨chunk, rest⟩
    · have hne : fit.1 ≠ [] := by
        intro hnil
        rw [hnil, hrest] at happend
        exact h.ne_nil happend.symm
      obtain ⟨first, line, hline, hfirst⟩ := hstart [] hne
      rw [append_nil] at hline
      exact ⟨.nil, hlength, fun c hc => hprint c (.inl hc), first, line, hline, hfirst⟩
    · rw [hrest] at hleft happend
      have hsuffix := hleft.suffix
      rw [handleLongWord]
      split
      · next hlong =>
        -- a space is no longer than a line
        have hchunk : IsWord chunk ∧ Left (chunk.drop (width - fit.1.flatten.length) :: rest) := by
          cases hsuffix with
          | words halt =>
            cases halt with
            | one hw => exact ⟨hw, .words (.one (hw.drop (by omega)))⟩
            | cons hw hr => exact ⟨hw, .words (.cons (hw.drop (by omega)) hr)⟩
          | space _ =>
            rw [length_singleton] at hlong
            omega
        refine ⟨hchunk.2, ?_, ?_, ?_⟩
        · rw [flatten_append, length_append, flatten_cons, flatten_nil, append_nil,
            length_take]
          omega
        · intro c hc
          rw [flatten_append, mem_append, flatten_cons, flatten_nil, append_nil] at hc
          rcases hc with hc | hc
          · exact hprint c (.inl hc)
          · exact (hchunk.1.chars c (mem_of_mem_take hc)).1
        · by_cases hne : fit.1 = []
          · refine ⟨chunk.take (width - fit.1.flatten.length), [], by rw [hne]; rfl, ?_, ?_⟩
            · rw [hne, ne_eq, take_eq_nil_iff]
              rintro (hzero | hnil)
              · simp only [flatten_nil, length_nil, Nat.sub_zero] at hzero
                omega
              · exact hchunk.1.ne hnil
            · exact fun c hc => hchunk.1.chars c (mem_of_mem_take hc)
          · exact hstart _ hne
      · next hshort =>
        have hne : fit.1 ≠ [] := by
          intro hnil
          have hfirst : takeFit width 0 chunks = ([], chunk :: rest) := Prod.ext hnil hrest
          rw [hchunks, takeFit] at hfirst
          split at hfirst
          · cases hfirst
          · next hbig =>
            rw [hnil, hchunks, nil_append] at happend
            have : chunk = word := (List.cons.inj happend).1
            rw [this] at hshort
            omega
        obtain ⟨first, line, hline, hfirst⟩ := hstart [] hne
        rw [append_nil] at hline
        exact ⟨hsuffix, hlength, fun c hc => hprint c (.inl hc), first, line, hline, hfirst⟩
  obtain ⟨hnext, hfits, hchars, first, line, hlong, hfirst⟩ := hround
  refine ⟨⟨?_, ?_, ?_⟩, hnext⟩
  · obtain ⟨rest, hdrop⟩ := dropBlank_cons hfirst.not_blank line
    obtain ⟨c, tail, rfl⟩ := exists_cons_of_ne_nil hfirst.ne
    rw [hlong, hdrop]
    exact ⟨c, tail ++ rest.flatten, rfl, (hfirst.chars c mem_cons_self).2⟩
  · intro c hc
    obtain ⟨chunk, hchunk, hc⟩ := mem_flatten.mp hc
    exact hchars c (mem_flatten.mpr ⟨chunk, (dropBlank_start _).subset hchunk, hc⟩)
  · exact le_trans ((dropBlank_start _).flatten.length_le) hfits

/-- A line starts with a word, unless nothing is left. -/
theorem dropStart_left (h : if started then Left chunks else chunks = [] ∨ Alternating chunks) :
    dropStart started chunks = [] ∨ Alternating (dropStart started chunks) := by
  have hkeep : Alternating chunks → dropStart started chunks = chunks := by
    intro halt
    obtain ⟨word, rest, rfl, hword⟩ := halt.head
    simp [dropStart, hword.not_blank]
  cases started with
  | false =>
    rcases h with rfl | h
    · exact .inl rfl
    · rw [hkeep h]
      exact .inr h
  | true =>
    cases h with
    | nil => exact .inl rfl
    | words h =>
      rw [hkeep h]
      exact .inr h
    | space h => exact .inr h

theorem wrapFrom_shown (hwidth : 1 ≤ width) (n : Nat) (started : Bool) (chunks : List (List Char))
    (h : if started then Left chunks else chunks = [] ∨ Alternating chunks) :
    ∀ line ∈ wrapFrom width n started chunks, Shown width line := by
  induction n generalizing started chunks with
  | zero => exact fun line hline => nomatch hline
  | succ n ih =>
    rcases chunks with _ | ⟨chunk, chunks⟩
    · exact fun line hline => nomatch hline
    · have hstart := dropStart_left h
      rw [wrapFrom]
      generalize dropStart started (chunk :: chunks) = kept at hstart
      rcases hstart with rfl | halt
      · intro line hline
        cases n <;> cases hline
      · obtain ⟨hshown, hleft⟩ := round_shown hwidth halt
        rw [if_neg]
        · intro line hline
          rcases mem_cons.mp hline with rfl | hline
          · exact hshown
          · exact ih true _ hleft line hline
        · intro hnil
          rw [hnil] at hshown
          obtain ⟨c, rest, he, -⟩ := hshown.start
          cases he

/-- The lines of a normal text are shown, also where words are broken. -/
theorem wrap_shown (hwidth : 1 ≤ width) (h : Normal text) : ∀ line ∈ wrap width text, Shown width line := by
  obtain ⟨chunks, halt, rfl⟩ := h
  unfold wrap
  rw [replace_printable halt.printable, splitChunks_flatten halt]
  exact wrapFrom_shown hwidth _ false _ (.inr halt)

/-! ## What wrapping keeps -/

def visible (text : List Char) : List Char := text.filter fun c => !isSpace c

theorem visible_append (a b : List Char) : visible (a ++ b) = visible a ++ visible b := filter_append _ _

theorem visible_blank (h : isBlankChunk chunk = true) : visible chunk = [] :=
  filter_eq_nil_iff.mpr fun c hc => by simpa using all_eq_true.mp h c hc

theorem handleLongWord_flatten (width : Nat) (line chunks : List (List Char)) :
    (handleLongWord width line chunks).1.flatten ++ (handleLongWord width line chunks).2.flatten =
      line.flatten ++ chunks.flatten := by
  rcases chunks with _ | ⟨chunk, chunks⟩
  · rfl
  · rw [handleLongWord]
    split
    · simp only [flatten_append, flatten_cons, flatten_nil, append_nil, append_assoc]
      rw [← append_assoc (List.take _ _), take_append_drop]
    · rfl

theorem dropBlank_visible (line : List (List Char)) : visible (dropBlank line).flatten = visible line.flatten := by
  unfold dropBlank
  split
  · next chunk hlast =>
    split
    · next hblank =>
      obtain ⟨front, rfl⟩ := List.getLast?_eq_some_iff.mp hlast
      rw [dropLast_concat, flatten_append, visible_append, flatten_cons, flatten_nil, append_nil,
        visible_blank hblank, append_nil]
    · rfl
  · rfl

theorem dropStart_visible (started : Bool) (chunks : List (List Char)) :
    visible (dropStart started chunks).flatten = visible chunks.flatten ∧
      (dropStart started chunks).flatten.length ≤ chunks.flatten.length := by
  rcases chunks with _ | ⟨chunk, chunks⟩
  · exact ⟨rfl, le_rfl⟩
  · rw [dropStart]
    split
    · next hblank =>
      rw [Bool.and_eq_true] at hblank
      rw [flatten_cons, visible_append, visible_blank hblank.2, nil_append, length_append]
      exact ⟨rfl, by omega⟩
    · exact ⟨rfl, le_rfl⟩

theorem wrapFrom_visible (hwidth : 1 ≤ width) (n : Nat) (started : Bool) (chunks : List (List Char))
    (h : if started then Left chunks else chunks = [] ∨ Alternating chunks) (hn : chunks.flatten.length < n) :
    visible (wrapFrom width n started chunks).flatten = visible chunks.flatten := by
  induction n generalizing started chunks with
  | zero => omega
  | succ n ih =>
    rcases chunks with _ | ⟨chunk, chunks⟩
    · rfl
    · obtain ⟨hvisible, hlength⟩ := dropStart_visible started (chunk :: chunks)
      have hstart := dropStart_left h
      rw [wrapFrom]
      generalize dropStart started (chunk :: chunks) = kept at hstart hvisible hlength
      rcases hstart with rfl | halt
      · have hnil : wrapFrom width n started [] = [] := by cases n <;> rfl
        rw [← hvisible]
        show visible (wrapFrom width n started []).flatten = _
        rw [hnil]
      · obtain ⟨hshown, hleft⟩ := round_shown hwidth halt
        have hsplit := handleLongWord_flatten width (takeFit width 0 kept).1 (takeFit width 0 kept).2
        have hfit : (takeFit width 0 kept).1.flatten ++ (takeFit width 0 kept).2.flatten = kept.flatten := by
          rw [← flatten_append, takeFit_append]
        rw [hfit] at hsplit
        have hdrop := dropBlank_visible (handleLongWord width (takeFit width 0 kept).1 (takeFit width 0 kept).2).1
        have hsmaller := (dropBlank_start (handleLongWord width (takeFit width 0 kept).1
          (takeFit width 0 kept).2).1).flatten.length_le
        generalize handleLongWord width (takeFit width 0 kept).1 (takeFit width 0 kept).2 = long at *
        obtain ⟨c, rest, hline, -⟩ := hshown.start
        have hsum := congrArg List.length hsplit
        rw [hline, length_cons] at hsmaller
        rw [length_append] at hsum
        have hne : dropBlank long.1 ≠ [] := by
          intro hnil
          rw [hnil] at hline
          cases hline
        rw [if_neg hne, flatten_cons, visible_append, hdrop,
          ih true long.2 hleft (by omega), ← visible_append, hsplit, hvisible]

/-- Wrapping a normal text drops spaces only. -/
theorem wrap_visible (hwidth : 1 ≤ width) (h : Normal text) : visible (wrap width text).flatten = visible text := by
  obtain ⟨chunks, halt, rfl⟩ := h
  unfold wrap
  rw [replace_printable halt.printable, splitChunks_flatten halt]
  exact wrapFrom_visible hwidth _ false _ (.inr halt) (Nat.lt_succ_self _)

end Docich.Captions
