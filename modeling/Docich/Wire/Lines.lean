import Mathlib.Data.List.Basic

/-!
# Lines

Texts over any letters, cut at a separator.

- `split`: the pieces between the separators; `complete`, `rest`: those before one, and what stands after the last;
- `join`: pieces, each with its separator;
- `complete_join`: a text is its complete lines and its rest;
- `placed`: lines with the places where they begin.
-/

namespace Wire.Lines

open List Option

variable {α : Type} [DecidableEq α] (sep : α)

def split : List α → List (List α)
  | [] => [[]]
  | c :: text =>
    if c = sep then [] :: split text
    else
      match split text with
      | [] => [[c]]
      | line :: lines => (c :: line) :: lines

def complete (text : List α) : List (List α) := (split sep text).dropLast

def rest (text : List α) : List α := (split sep text).getLastD []

def join (lines : List (List α)) : List α := lines.flatMap fun line => line ++ [sep]

variable {sep}

theorem split_ne_nil (text : List α) : split sep text ≠ [] := by
  cases text with
  | nil => simp [split]
  | cons c text =>
    unfold split
    split_ifs
    · simp
    · split <;> simp

variable {line text : List α} {lines : List (List α)}

theorem split_line (h : sep ∉ line) (text : List α) : split sep (line ++ sep :: text) = line :: split sep text := by
  induction line with
  | nil => simp [split]
  | cons c line ih =>
    rw [mem_cons, not_or] at h
    rw [cons_append, split, if_neg (Ne.symm h.1), ih h.2]

theorem split_open (h : sep ∉ line) : split sep line = [line] := by
  induction line with
  | nil => rfl
  | cons c line ih =>
    rw [mem_cons, not_or] at h
    rw [split, if_neg (Ne.symm h.1), ih h.2]

/-- Lines that have no separator in them. -/
def Whole (sep : α) (lines : List (List α)) : Prop := ∀ line ∈ lines, sep ∉ line

theorem split_join (h : Whole sep lines) (text : List α) :
    split sep (join sep lines ++ text) = lines ++ split sep text := by
  induction lines with
  | nil => rfl
  | cons line lines ih =>
    have htail : Whole sep lines := fun l hl => h l (mem_cons_of_mem _ hl)
    rw [join, flatMap_cons, append_assoc, append_assoc, singleton_append,
      split_line (h line mem_cons_self), ← join, ih htail, cons_append]

theorem complete_join (h : Whole sep lines) (htext : sep ∉ text) :
    complete sep (join sep lines ++ text) = lines := by
  rw [complete, split_join h, split_open htext, dropLast_concat]

omit [DecidableEq α] in
theorem join_append (lines lines' : List (List α)) : join sep (lines ++ lines') = join sep lines ++ join sep lines' :=
  flatMap_append

theorem join_split (text : List α) : join sep (complete sep text) ++ rest sep text = text := by
  induction text with
  | nil => rfl
  | cons c text ih =>
    unfold complete rest at ih ⊢
    unfold split
    obtain ⟨line, lines, hsplit⟩ := exists_cons_of_ne_nil (split_ne_nil text : split sep text ≠ [])
    split_ifs with hc
    · rw [hc]
      rw [hsplit] at ih ⊢
      simpa [join] using ih
    · rw [hsplit] at ih ⊢
      cases lines with
      | nil => simpa [join] using ih
      | cons line' lines => simpa [join] using ih

theorem split_whole (text : List α) : Whole sep (split sep text) := by
  induction text with
  | nil => simp [split, Whole]
  | cons c text ih =>
    obtain ⟨line, lines, hsplit⟩ := exists_cons_of_ne_nil (split_ne_nil text : split sep text ≠ [])
    unfold split
    rw [hsplit] at ih ⊢
    intro l hl
    split_ifs at hl with hc
    · rcases mem_cons.mp hl with rfl | hl
      · exact not_mem_nil
      · exact ih l hl
    · rcases mem_cons.mp hl with rfl | hl
      · rw [mem_cons, not_or]
        exact ⟨Ne.symm hc, ih line mem_cons_self⟩
      · exact ih l (mem_cons_of_mem _ hl)

theorem complete_whole (text : List α) : Whole sep (complete sep text) :=
  fun line hline => split_whole text line (dropLast_subset _ hline)

theorem sep_notMem_rest (text : List α) : sep ∉ rest sep text := by
  have hlast := (split_whole text : Whole sep (split sep text)) ((split sep text).getLast (split_ne_nil text)) (getLast_mem _)
  rwa [rest, getLastD_eq_getLast?, List.getLast?_eq_some_getLast (split_ne_nil text), getD_some]

/-- The place of the first separator cuts the text in two. -/
theorem cut_at {i : ℕ} (h : text.idxOf? sep = some i) :
    ∃ line text', text = line ++ sep :: text' ∧ line.length = i ∧ sep ∉ line := by
  induction text generalizing i with
  | nil => simp at h
  | cons c text ih =>
    rw [List.idxOf?_cons] at h
    split_ifs at h with hc
    · obtain rfl : 0 = i := some.inj h
      exact ⟨[], text, by rw [← beq_iff_eq.mp hc, nil_append], rfl, not_mem_nil⟩
    · obtain ⟨j, hj, rfl⟩ := map_eq_some_iff.mp h
      obtain ⟨line, text', rfl, hlen, hline⟩ := ih hj
      refine ⟨c :: line, text', rfl, by rw [length_cons, hlen], ?_⟩
      rw [mem_cons, not_or]
      exact ⟨fun heq => hc (by rw [heq, beq_self_eq_true]), hline⟩

/-- The lines with the places where they begin, the first one at this place. -/
def placed (start : ℕ) : List (List α) → List (ℕ × List α)
  | [] => []
  | line :: lines => (start, line) :: placed (start + line.length + 1) lines

omit [DecidableEq α] in
theorem placed_append (lines lines' : List (List α)) (start : ℕ) :
    placed start (lines ++ lines') = placed start lines ++ placed (start + (join sep lines).length) lines' := by
  induction lines generalizing start with
  | nil => rfl
  | cons line lines ih =>
    rw [cons_append, placed, ih, placed, cons_append]
    congr 3
    simp only [join, flatMap_cons, length_append, length_singleton]
    omega

end Wire.Lines
