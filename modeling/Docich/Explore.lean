import Mathlib.Data.Fintype.Card
import Mathlib.Logic.Relation

/-!
# Exploring a graph

- `explore`: the vertices that a stack leads to, where each vertex is pushed once;
- `mem_explore`: they are the vertices that can be reached.
-/

namespace Explore

open List Relation

variable {α : Type} [DecidableEq α] (next : α → List α)

/-- What is seen and what is found once `n` vertices were popped. -/
def explore : ℕ → List α → List α → List α → List α × List α
  | n + 1, seen, v :: stack, found =>
    let new := (next v).filter (· ∉ seen)
    explore n (seen ++ new) (new.reverse ++ stack) (found ++ new)
  | _, seen, _, found => (seen, found)

abbrev Reach : α → α → Prop := ReflTransGen fun v w => w ∈ next v

/-- What holds while the stack is worked off, where `before` was seen at the start. -/
structure Exploring (seed : α) (before seen stack found : List α) : Prop where
  seen_eq : seen = before ++ found
  nodup : seen.Nodup
  pushed : ∀ v ∈ stack, v ∈ found
  reach : ∀ v ∈ found, Reach next seed v
  closed : ∀ v ∈ found, v ∉ stack → ∀ w ∈ next v, w ∈ seen
  start : seed ∈ found

variable {next} {seed v : α} {before seen stack found : List α}

theorem Exploring.step (hi : Exploring next seed before seen (v :: stack) found) (hnext : (next v).Nodup) :
    Exploring next seed before (seen ++ (next v).filter (· ∉ seen)) (((next v).filter (· ∉ seen)).reverse ++ stack)
      (found ++ (next v).filter (· ∉ seen)) := by
  have hv := hi.pushed v mem_cons_self
  refine ⟨by simp [hi.seen_eq], ?_, ?_, ?_, ?_, mem_append_left _ hi.start⟩
  · refine hi.nodup.append (hnext.filter _) fun w hw hnew => ?_
    simp [hw] at hnew
  · intro w hw
    rcases mem_append.mp hw with hw | hw
    · exact mem_append_right _ (mem_reverse.mp hw)
    · exact mem_append_left _ (hi.pushed w (mem_cons_of_mem v hw))
  · intro w hw
    rcases mem_append.mp hw with hw | hw
    · exact hi.reach w hw
    · exact (hi.reach v hv).tail (mem_filter.mp hw).1
  · intro u hu hstack w hw
    rcases mem_append.mp hu with hu | hu
    · by_cases he : u = v
      · subst he
        by_cases hseen : w ∈ seen
        · exact mem_append_left _ hseen
        · exact mem_append_right _ (by simp [hw, hseen])
      · have hout : u ∉ v :: stack := by simp_all
        exact mem_append_left _ (hi.closed u hu hout w hw)
    · exact absurd (mem_append_left stack (mem_reverse.mpr hu)) hstack

variable [Fintype α]

/-- No vertex is pushed twice, so the pops of all vertices are enough. -/
theorem exploring_explore (hnext : ∀ v, (next v).Nodup) {n : ℕ} (hi : Exploring next seed before seen stack found)
    (hn : stack.length + Fintype.card α ≤ n + seen.length) :
    Exploring next seed before (explore next n seen stack found).1 [] (explore next n seen stack found).2 := by
  induction n generalizing seen stack found with
  | zero =>
    have hle := hi.nodup.length_le_card
    obtain rfl : stack = [] := length_eq_zero_iff.mp (by omega)
    exact hi
  | succ n ih =>
    cases stack with
    | nil => exact hi
    | cons v stack =>
      refine ih (hi.step (hnext v)) ?_
      simp only [length_append, length_reverse, length_cons] at hn ⊢
      omega

variable (hnext : ∀ v, (next v).Nodup) (hbefore : before.Nodup) (hfresh : ∀ v, Reach next seed v → v ∉ before)

include hnext hbefore hfresh

/-- The search from one vertex, among vertices that were not seen before. -/
theorem explore_seed : Exploring next seed before (explore next (Fintype.card α) (before ++ [seed]) [seed] [seed]).1 []
    (explore next (Fintype.card α) (before ++ [seed]) [seed] [seed]).2 := by
  have hseed : seed ∉ before := hfresh seed .refl
  refine exploring_explore hnext ⟨rfl, ?_, fun v hv => hv, ?_, ?_, mem_singleton_self seed⟩ (by simp; omega)
  · exact hbefore.append (nodup_singleton seed) fun v hv he => hseed (mem_singleton.mp he ▸ hv)
  · intro v hv
    rw [mem_singleton.mp hv]
  · exact fun v hv hout => absurd hv hout

theorem mem_explore : v ∈ (explore next (Fintype.card α) (before ++ [seed]) [seed] [seed]).2 ↔ Reach next seed v := by
  have hi := explore_seed hnext hbefore hfresh
  refine ⟨hi.reach v, fun hv => ?_⟩
  induction hv with
  | refl => exact hi.start
  | tail hv hw ih =>
    have hseen := hi.closed _ ih not_mem_nil _ hw
    rw [hi.seen_eq] at hseen
    exact (mem_append.mp hseen).resolve_left (hfresh _ (hv.tail hw))

end Explore
