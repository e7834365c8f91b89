import Mathlib.Data.List.Basic
import Mathlib.Data.List.TakeWhile

/-!
# Texts and blanks

Over any letters, some of which are blanks.

- `strip`: the text without the blanks at its ends (`strip_spec`, `strip_between`);
- `words`: the pieces between runs of blanks, and how the first one is split off (`words_blank`, `words_word`).
-/

namespace Wire.Blanks

open List

variable {α : Type} (blank : α → Bool)

def strip (text : List α) : List α := ((text.dropWhile blank).reverse.dropWhile blank).reverse

def AllBlank (text : List α) : Prop := ∀ c ∈ text, blank c = true

def NoBlank (text : List α) : Prop := ∀ c ∈ text, blank c = false

variable {blank}

theorem AllBlank.append {s t : List α} (hs : AllBlank blank s) (ht : AllBlank blank t) : AllBlank blank (s ++ t) := by
  intro c hc
  rcases mem_append.mp hc with h | h
  · exact hs c h
  · exact ht c h

theorem allBlank_nil : AllBlank blank [] := fun _ h => absurd h not_mem_nil

theorem dropWhile_split (blank : α → Bool) (text : List α) : ∃ a, AllBlank blank a ∧ text = a ++ text.dropWhile blank :=
  ⟨text.takeWhile blank, fun _ hc => mem_takeWhile_imp hc, (takeWhile_append_dropWhile).symm⟩

/-- What is stripped off are blanks. -/
theorem strip_spec (blank : α → Bool) (text : List α) : ∃ a e, AllBlank blank a ∧ AllBlank blank e ∧ text = a ++ strip blank text ++ e := by
  obtain ⟨a, ha, htext⟩ := dropWhile_split blank text
  obtain ⟨e, he, hrev⟩ := dropWhile_split blank (text.dropWhile blank).reverse
  refine ⟨a, e.reverse, ha, fun c hc => he c (mem_reverse.mp hc), ?_⟩
  have hmid : text.dropWhile blank = strip blank text ++ e.reverse := by
    rw [← reverse_reverse (text.dropWhile blank), hrev, reverse_append]
    rfl
  rw [append_assoc, ← hmid]
  exact htext

theorem strip_subset (blank : α → Bool) (text : List α) : strip blank text ⊆ text := by
  obtain ⟨a, e, -, -, htext⟩ := strip_spec blank text
  intro c hc
  rw [htext]
  exact mem_append_left _ (mem_append_right _ hc)

variable {a text w v : List α} {c : α}

theorem dropWhile_between (ha : AllBlank blank a) (hc : blank c = false) (text : List α) :
    (a ++ c :: text).dropWhile blank = c :: text := by
  rw [dropWhile_append, if_pos (by rw [dropWhile_eq_nil_iff.mpr ha]; rfl), dropWhile_cons_of_neg]
  rw [hc]
  exact Bool.false_ne_true

/-- A text that begins and ends with no blank is what remains between blanks. -/
theorem strip_between {e : List α} (ha : AllBlank blank a) (he : AllBlank blank e) {d : α}
    (hc : text.head? = some c) (hc' : blank c = false) (hd : text.getLast? = some d) (hd' : blank d = false) :
    strip blank (a ++ text ++ e) = text := by
  obtain ⟨rest, rfl⟩ : ∃ rest, text = c :: rest := by
    cases text with
    | nil => cases hc
    | cons c' rest =>
      cases hc
      exact ⟨rest, rfl⟩
  obtain ⟨init, hinit⟩ := List.getLast?_eq_some_iff.mp hd
  have he' : AllBlank blank e.reverse := fun x hx => he x (mem_reverse.mp hx)
  unfold strip
  rw [append_assoc, cons_append, dropWhile_between ha hc', ← cons_append, hinit, reverse_append,
    reverse_append, reverse_singleton, singleton_append, dropWhile_between he' hd', reverse_cons,
    reverse_reverse]

theorem strip_map {f : α → α} (hf : ∀ c, blank (f c) = blank c) (text : List α) :
    strip blank (text.map f) = (strip blank text).map f := by
  have hcomp : blank ∘ f = blank := funext hf
  simp only [strip, dropWhile_map, ← map_reverse, hcomp]

/-! ## Words -/

variable (blank)

def words (text : List α) : List (List α) := (text.splitOnP blank).filter fun w => !w.isEmpty

variable {blank}

theorem words_blank (ha : AllBlank blank a) (text : List α) : words blank (a ++ text) = words blank text := by
  induction a with
  | nil => rfl
  | cons c a ih =>
    rw [cons_append, words, splitOnP_cons_eq_if_modifyHead, if_pos (ha c mem_cons_self)]
    exact ih fun d hd => ha d (mem_cons_of_mem _ hd)

theorem words_last (hw : NoBlank blank w) (hne : w ≠ []) : words blank w = [w] := by
  have hsplit : w.splitOnP blank = [w] :=
    splitOnP_eq_singleton hw
  rw [words, hsplit]
  simp [hne]

theorem words_word (hw : NoBlank blank w) (hne : w ≠ []) (hc : blank c = true) (text : List α) :
    words blank (w ++ c :: text) = w :: words blank text := by
  have hsplit : (w ++ c :: text).splitOnP blank = w :: text.splitOnP blank :=
    splitOnP_append_cons_of_forall_mem hw c hc text
  rw [words, hsplit]
  simp [hne, words]

theorem blank_or_word (blank : α → Bool) (text : List α) : AllBlank blank text ∨
    ∃ a w rest, text = a ++ w ++ rest ∧ AllBlank blank a ∧ NoBlank blank w ∧ w ≠ [] ∧
      (rest = [] ∨ ∃ c rest', rest = c :: rest' ∧ blank c = true) := by
  obtain ⟨a, ha, htext⟩ := dropWhile_split blank text
  cases hd : text.dropWhile blank with
  | nil => exact .inl (dropWhile_eq_nil_iff.mp hd)
  | cons c t =>
    have hc : blank c = false := by
      have := List.head?_dropWhile_not blank text
      rw [hd] at this
      simpa using this
    refine .inr ⟨a, (c :: t).takeWhile fun d => !blank d, (c :: t).dropWhile fun d => !blank d, ?_, ha, ?_, ?_, ?_⟩
    · rw [append_assoc, takeWhile_append_dropWhile, ← hd]
      exact htext
    · intro d hd
      simpa using mem_takeWhile_imp hd
    · rw [takeWhile_cons_of_pos (by rw [hc]; rfl)]
      exact cons_ne_nil _ _
    · cases hr : (c :: t).dropWhile fun d => !blank d with
      | nil => exact .inl rfl
      | cons d rest =>
        have := List.head?_dropWhile_not (fun d => !blank d) (c :: t)
        rw [hr] at this
        exact .inr ⟨d, rest, rfl, by simpa using this⟩

theorem words_nil (h : words blank text = []) : AllBlank blank text := by
  rcases blank_or_word blank text with hall | ⟨a, w, rest, rfl, ha, hw, hne, rfl | ⟨c, rest, rfl, hc⟩⟩
  · exact hall
  · rw [append_nil, words_blank ha, words_last hw hne] at h
    cases h
  · rw [append_assoc, words_blank ha, words_word hw hne hc] at h
    cases h

/-- The first word, the blanks before it and what comes after it. -/
theorem words_cons {ws : List (List α)} (h : words blank text = v :: ws) :
    ∃ a rest, AllBlank blank a ∧ NoBlank blank v ∧ v ≠ [] ∧ text = a ++ v ++ rest ∧ words blank rest = ws ∧
      (rest = [] ∨ ∃ c rest', rest = c :: rest' ∧ blank c = true) := by
  rcases blank_or_word blank text with hall | ⟨a, w, rest, rfl, ha, hw, hne, rfl | ⟨c, rest, rfl, hc⟩⟩
  · rw [← append_nil text, words_blank hall] at h
    cases h
  · rw [append_nil, words_blank ha, words_last hw hne] at h
    cases h
    exact ⟨a, [], ha, hw, hne, rfl, rfl, .inl rfl⟩
  · rw [append_assoc, words_blank ha, words_word hw hne hc, List.cons.injEq] at h
    obtain ⟨rfl, h⟩ := h
    have hcons : words blank (c :: rest) = words blank rest := words_blank (a := [c]) (fun d hd => by
      rw [mem_singleton.mp hd]
      exact hc) rest
    exact ⟨a, c :: rest, ha, hw, hne, rfl, hcons.trans h, .inr ⟨c, rest, rfl, hc⟩⟩

theorem words_two (h : words blank text = [v, w]) :
    ∃ a b e, AllBlank blank a ∧ AllBlank blank b ∧ b ≠ [] ∧ AllBlank blank e ∧ text = a ++ v ++ b ++ w ++ e := by
  obtain ⟨a, rest, ha, -, -, rfl, h, hrest⟩ := words_cons h
  obtain ⟨b, e, hb, hw, hne, rfl, h, -⟩ := words_cons h
  refine ⟨a, b, e, ha, hb, ?_, words_nil h, by simp only [append_assoc]⟩
  rintro rfl
  obtain ⟨c, w, rfl⟩ := exists_cons_of_ne_nil hne
  rcases hrest with hnil | ⟨d, rest, hcons, hd⟩
  · cases hnil
  · cases hcons
    exact absurd hd (by rw [hw _ mem_cons_self]; exact Bool.false_ne_true)

end Wire.Blanks
