import Mathlib.Data.List.Basic

/-!
# Caption text

What the client takes for execution ids and pages, and how it normalizes a caption to printable ASCII. The compatibility
decomposition of Unicode is a parameter: everything that it leaves outside ASCII is dropped after it.
-/

namespace Docich.Captions

open List

inductive Raised
  | plan (message : String)
  | protocol (message : String)
  deriving DecidableEq

/-! ## Ids and pages -/

def isIdChar (c : Char) : Bool :=
  ('A' ≤ c && c ≤ 'Z') || ('a' ≤ c && c ≤ 'z') || ('0' ≤ c && c ≤ '9') || c = '.' || c = '_' || c = ':' || c = '-'

def validateExecutionId (id : List Char) : Except Raised (List Char) :=
  if 1 ≤ id.length ∧ id.length ≤ 128 ∧ id.all isIdChar then pure id
  else throw (.plan "executionId contains unsupported characters")

def protocolPageSlots : Nat := 32

def validatePage (page : Int) : Except Raised Nat :=
  if 0 ≤ page ∧ page < protocolPageSlots then pure page.toNat
  else throw (.protocol "caption page must be between 0 and 31")

/-! ## Lines -/

def isLineBreak (c : Char) : Bool :=
  (0x0a ≤ c.toNat && c.toNat ≤ 0x0d) || (0x1c ≤ c.toNat && c.toNat ≤ 0x1e) || c.toNat = 0x85 || c.toNat = 0x2028 ||
    c.toNat = 0x2029

/-- The lines of a text, after the line begun. -/
def splitlinesFrom : List Char → List Char → List (List Char)
  | line, [] => if line = [] then [] else [line]
  | line, '\r' :: '\n' :: text => line :: splitlinesFrom [] text
  | line, c :: text => if isLineBreak c then line :: splitlinesFrom [] text else splitlinesFrom (line ++ [c]) text

def splitlines (text : List Char) : List (List Char) := splitlinesFrom [] text

/-! ## Normal form -/

def punctuation (c : Char) : List Char :=
  if c ∈ ['\u2018', '\u2019', '\u201a', '\u201b'] then ['\'']
  else if c ∈ ['\u201c', '\u201d', '\u201e', '\u201f'] then ['"']
  else if c ∈ ['\u2010', '\u2011', '\u2012', '\u2013', '\u2014', '\u2015', '\u2212'] then ['-']
  else if c = '\u2026' then ['.', '.', '.']
  else if c = '\u00a0' then [' ']
  else [c]

def isPrintable (c : Char) : Bool := 0x20 ≤ c.toNat && c.toNat ≤ 0x7e

def isSpace (c : Char) : Bool := (9 ≤ c.toNat && c.toNat ≤ 13) || (0x1c ≤ c.toNat && c.toNat ≤ 0x20)

/-- Every run of spaces becomes one; `after` a space, none is left. -/
def collapseFrom : Bool → List Char → List Char
  | _, [] => []
  | after, c :: text =>
    if isSpace c then (if after then [] else [' ']) ++ collapseFrom true text else c :: collapseFrom false text

def strip (text : List Char) : List Char := ((text.dropWhile isSpace).reverse.dropWhile isSpace).reverse

def normalizeCaptionText (nfkd : List Char → List Char) (value : List Char) : Except Raised (List Char) :=
  let value := nfkd (value.flatMap punctuation)
  let value := value.filter fun c => c.toNat < 128
  let value := value.map fun c => if isPrintable c then c else ' '
  let value := strip (collapseFrom false value)
  if value = [] then throw (.plan "caption translation became empty after normalization") else pure value

theorem mem_collapseFrom {after : Bool} {text : List Char} (h : ∀ c ∈ text, isPrintable c = true) :
    ∀ c ∈ collapseFrom after text, isPrintable c = true := by
  induction text generalizing after with
  | nil => exact fun c hc => nomatch hc
  | cons d text ih =>
    have htext := fun c hc => h c (mem_cons_of_mem _ hc)
    intro c hc
    unfold collapseFrom at hc
    split at hc
    · rcases mem_append.mp hc with hc | hc
      · split at hc
        · cases hc
        · rw [mem_singleton.mp hc]
          rfl
      · exact ih htext c hc
    · rcases mem_cons.mp hc with rfl | hc
      · exact h c mem_cons_self
      · exact ih htext c hc

theorem mem_strip {text : List Char} {c : Char} (h : c ∈ strip text) : c ∈ text := by
  have h := (dropWhile_sublist isSpace).subset (mem_reverse.mp h)
  exact (dropWhile_sublist isSpace).subset (mem_reverse.mp h)

/-- A normal form is printable, and not empty. -/
theorem normalizeCaptionText_ok {nfkd : List Char → List Char} {value text : List Char}
    (h : normalizeCaptionText nfkd value = .ok text) : text ≠ [] ∧ ∀ c ∈ text, isPrintable c = true := by
  unfold normalizeCaptionText at h
  dsimp only at h
  split at h
  · cases h
  · next hne =>
    cases h
    refine ⟨hne, fun c hc => mem_collapseFrom ?_ c (mem_strip hc)⟩
    intro d hd
    obtain ⟨e, -, rfl⟩ := mem_map.mp hd
    split
    · next he => exact he
    · rfl

end Docich.Captions
