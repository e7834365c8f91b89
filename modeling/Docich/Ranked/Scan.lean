import Mathlib.Data.List.MinMax

/-!
# The best pair of a list in one pass

A pass over a list keeps the least element so far and the best pair so far, the first element of a pair before the
second. When a lesser first element never makes a pair worse, it is enough to pair each element with the least one
before it: the pair kept is the best of all pairs (`best_scan`).
-/

namespace Ranked

open List

variable {α κ γ : Type*} [LinearOrder κ] [LinearOrder γ]

/-- A pair of a longer list is a pair before its last element, or has that element second. -/
theorem pair_concat {l : List α} {a x y : α} : [x, y].Sublist (l ++ [a]) ↔ [x, y].Sublist l ∨ x ∈ l ∧ y = a := by
  constructor
  · intro h
    obtain ⟨l₁, l₂, hl, h1, h2⟩ := sublist_append_iff.mp h
    rcases sublist_singleton.mp h2 with rfl | rfl
    · rw [append_nil] at hl
      rw [hl]
      exact .inl h1
    · have hy : [x] ++ [y] = l₁ ++ [a] := hl
      obtain ⟨hx, hya⟩ := append_inj' hy rfl
      rw [← hx] at h1
      exact .inr ⟨singleton_sublist.mp h1, singleton_inj.mp hya⟩
  · rintro (h | ⟨hx, rfl⟩)
    · exact h.trans (sublist_append_left _ _)
    · have hsub : ([x] ++ [y]).Sublist (l ++ [y]) := (singleton_sublist.mpr hx).append (Sublist.refl _)
      exact hsub

/-- The least element and the best pair. -/
structure Scan (α : Type*) where
  least : Option α
  best : Option (α × α)

section

variable (key : α → κ) (value : α → α → γ)

/-- A new element is paired with the least one before it; the older pair stays when it is as good. -/
def better (best : Option (α × α)) (m a : α) : Option (α × α) :=
  match best with
  | none => some (m, a)
  | some b => if value b.1 b.2 < value m a then some (m, a) else some b

def Scan.next (s : Scan α) (a : α) : Scan α where
  least :=
    match s.least with
    | none => some a
    | some m => if key a < key m then some a else some m
  best :=
    match s.least with
    | none => s.best
    | some m => better value s.best m a

def scan (l : List α) : Scan α := l.foldl (Scan.next key value) ⟨none, none⟩

/-- A pair that no pair of the list beats. -/
def BestPair (l : List α) (b : α × α) : Prop :=
  [b.1, b.2].Sublist l ∧ ∀ x y, [x, y].Sublist l → value x y ≤ value b.1 b.2

end

variable {key : α → κ} {value : α → α → γ}

theorem scan_concat (l : List α) (a : α) : scan key value (l ++ [a]) = (scan key value l).next key value a :=
  foldl_concat ..

/-- The least element is the first one with the least key. -/
theorem scan_least (l : List α) : (scan key value l).least = l.argmin key := by
  induction l using List.reverseRecOn with
  | nil => rfl
  | append_singleton l a ih =>
    rw [scan_concat, argmin_concat, Scan.next, ih]
    cases List.argmin key l <;> rfl

theorem better_ne_none (best : Option (α × α)) (m a : α) : better value best m a ≠ none := by
  unfold better
  split
  · exact Option.some_ne_none _
  · split <;> exact Option.some_ne_none _

/-- The new element with the least one before it, against the best pair before it. -/
theorem bestPair_better (hvalue : ∀ x y z, key x ≤ key y → value y z ≤ value x z) {l : List α} {m a : α}
    (hm : m ∈ l.argmin key) {best : Option (α × α)} (hnone : best = none → ∀ x y, ¬ [x, y].Sublist l)
    (hbest : ∀ b, best = some b → BestPair value l b) {b : α × α} (hb : better value best m a = some b) :
    BestPair value (l ++ [a]) b := by
  have hpair : [m, a].Sublist (l ++ [a]) := pair_concat.mpr (.inr ⟨argmin_mem hm, rfl⟩)
  have hlast : ∀ x ∈ l, value x a ≤ value m a := fun x hx => hvalue m x a (le_of_mem_argmin hx hm)
  unfold better at hb
  split at hb
  · cases hb
    refine ⟨hpair, fun x y hxy => ?_⟩
    rcases pair_concat.mp hxy with hxy | ⟨hx, rfl⟩
    · exact absurd hxy (hnone rfl x y)
    · exact hlast x hx
  · next c =>
    obtain ⟨hc, hcmax⟩ := hbest c rfl
    split at hb
    · next hlt =>
      cases hb
      refine ⟨hpair, fun x y hxy => ?_⟩
      rcases pair_concat.mp hxy with hxy | ⟨hx, rfl⟩
      · exact (hcmax x y hxy).trans hlt.le
      · exact hlast x hx
    · next hle =>
      cases hb
      refine ⟨pair_concat.mpr (.inl hc), fun x y hxy => ?_⟩
      rcases pair_concat.mp hxy with hxy | ⟨hx, rfl⟩
      · exact hcmax x y hxy
      · exact (hlast x hx).trans (not_lt.mp hle)

theorem not_pair_of_short {l : List α} (h : l.length < 2) (x y : α) : ¬ [x, y].Sublist l := by
  intro hxy
  have hlen : 2 ≤ l.length := hxy.length_le
  omega

theorem scan_best_none (l : List α) : (scan key value l).best = none ↔ l.length < 2 := by
  induction l using List.reverseRecOn with
  | nil => simp [scan]
  | append_singleton l a ih =>
    rw [scan_concat, Scan.next, scan_least, length_append, length_singleton]
    cases hm : l.argmin key with
    | none =>
      have hl : l = [] := argmin_eq_none.mp hm
      simpa [hl] using ih
    | some m =>
      have hl : l ≠ [] := fun h => by simp [h] at hm
      have hpos : 0 < l.length := length_pos_iff.mpr hl
      constructor
      · exact fun h => absurd h (better_ne_none _ m a)
      · intro h
        omega

/-- **One pass finds the best pair.** -/
theorem best_scan (hvalue : ∀ x y z, key x ≤ key y → value y z ≤ value x z) (l : List α) :
    ∀ b, (scan key value l).best = some b → BestPair value l b := by
  induction l using List.reverseRecOn with
  | nil => exact fun _ h => nomatch h
  | append_singleton l a ih =>
    intro b hb
    rw [scan_concat, Scan.next, scan_least] at hb
    cases hm : l.argmin key with
    | none =>
      have hl : l = [] := argmin_eq_none.mp hm
      subst hl
      cases hb
    | some m =>
      rw [hm] at hb
      apply bestPair_better hvalue hm ?_ ih hb
      intro hnone
      exact not_pair_of_short ((scan_best_none l).mp hnone)

end Ranked
