import Mathlib.Data.List.Sort

/-!
# Stable sorting by a key

- `sortBy`: a list in the order of a key;
- `pair_sortBy`: elements whose keys do not fall keep their order;
- `sortBy_congr`: two lists with the same elements, in which equal keys come in the same order, are sorted to one list;
- `order`: the same by insertion, and `order_eq_iff`: what makes two lists one when they are ordered.
-/

namespace Ranked

open List

variable {α β : Type*} [LinearOrder β] {f : α → β} {l l' : List α} {a b : α}

def sortBy (f : α → β) (l : List α) : List α := l.mergeSort fun a b => f a ≤ f b

theorem sortBy_perm (f : α → β) (l : List α) : (sortBy f l).Perm l := mergeSort_perm _ _

theorem mem_sortBy : a ∈ sortBy f l ↔ a ∈ l := (sortBy_perm f l).mem_iff

theorem sortBy_pairwise (f : α → β) (l : List α) : (sortBy f l).Pairwise fun a b => f a ≤ f b := by
  have h : (sortBy f l).Pairwise fun a b => decide (f a ≤ f b) = true :=
    pairwise_mergeSort (by simpa using fun a b c => le_trans) (by simpa using fun a b => le_total (f a) (f b)) l
  simpa using h

/-- The first ones come before the others. -/
theorem le_of_mem_take (k : ℕ) (ha : a ∈ (sortBy f l).take k) (hb : b ∈ l) (hnot : b ∉ (sortBy f l).take k) : f a ≤ f b := by
  have hsorted := sortBy_pairwise f l
  rw [← take_append_drop k (sortBy f l), pairwise_append] at hsorted
  have hdrop : b ∈ (sortBy f l).drop k := by
    have hmem : b ∈ sortBy f l := mem_sortBy.mpr hb
    rw [← take_append_drop k (sortBy f l), mem_append] at hmem
    exact hmem.resolve_left hnot
  exact hsorted.2.2 a ha b hdrop

/-- Elements whose keys do not fall keep their order. -/
theorem pair_sortBy (hle : f a ≤ f b) (h : [a, b].Sublist l) : [a, b].Sublist (sortBy f l) :=
  pair_sublist_mergeSort (by simpa using fun a b c => le_trans) (by simpa using fun a b => le_total (f a) (f b))
    (by simpa using hle) h

/-- A sublist that is in order stays a sublist. -/
theorem sublist_sortBy (hsorted : l'.Pairwise fun a b => f a ≤ f b) (h : l'.Sublist l) : l'.Sublist (sortBy f l) :=
  sublist_mergeSort (by simpa using fun a b c => le_trans) (by simpa using fun a b => le_total (f a) (f b))
    (by simpa using hsorted) h

/-- Two elements of a list stand in one order or the other. -/
theorem pair_or_pair (ha : a ∈ l) (hb : b ∈ l) (hne : a ≠ b) : [a, b].Sublist l ∨ [b, a].Sublist l := by
  induction l with
  | nil => cases ha
  | cons c l ih =>
    rcases mem_cons.mp ha with hc | ha
    · rcases mem_cons.mp hb with hc' | hb
      · exact absurd (hc.trans hc'.symm) hne
      · rw [hc]
        exact .inl (Sublist.cons_cons _ (singleton_sublist.mpr hb))
    · rcases mem_cons.mp hb with hc | hb
      · rw [hc]
        exact .inr (Sublist.cons_cons _ (singleton_sublist.mpr ha))
      · exact (ih ha hb).imp (Sublist.cons _) (Sublist.cons _)

/-- Without repetitions only one of the two orders is there. -/
theorem not_pair_pair (hl : l.Nodup) (h : [a, b].Sublist l) : ¬ [b, a].Sublist l := by
  induction l with
  | nil => exact nofun
  | cons c l ih =>
    rw [nodup_cons] at hl
    intro h'
    rcases sublist_cons_iff.mp h with h | ⟨t, ht, h⟩
    · rcases sublist_cons_iff.mp h' with h' | ⟨t', ht', h'⟩
      · exact ih hl.2 h h'
      · rw [(List.cons.inj ht').1] at h
        exact hl.1 (h.subset (mem_cons_of_mem _ mem_cons_self))
    · obtain ⟨rfl, rfl⟩ := List.cons.inj ht
      rcases sublist_cons_iff.mp h' with h' | ⟨t', ht', h'⟩
      · exact hl.1 (h'.subset (mem_cons_of_mem _ mem_cons_self))
      · rw [(List.cons.inj ht').1] at h
        exact hl.1 (h.subset mem_cons_self)

theorem pair_of_sortBy (hl : l.Nodup) (hle : f b ≤ f a) (h : [a, b].Sublist (sortBy f l)) : [a, b].Sublist l := by
  have hnodup : (sortBy f l).Nodup := (sortBy_perm f l).nodup_iff.mpr hl
  have hne : a ≠ b := by
    rintro rfl
    exact not_pair_pair hnodup h h
  have ha : a ∈ l := mem_sortBy.mp (h.subset (by simp))
  have hb : b ∈ l := mem_sortBy.mp (h.subset (by simp))
  exact (pair_or_pair ha hb hne).resolve_right fun hba => not_pair_pair hnodup h (pair_sortBy hle hba)

/-- **Stability.** The same elements in orders that differ only where keys differ give one sorted list. -/
theorem sortBy_congr (hl : l.Nodup) (hperm : l.Perm l')
    (hties : ∀ a b, f a = f b → [a, b].Sublist l → ¬ [b, a].Sublist l') : sortBy f l = sortBy f l' := by
  have hl' : l'.Nodup := hperm.nodup_iff.mp hl
  have hnodup : (sortBy f l).Nodup := (sortBy_perm f l).nodup_iff.mpr hl
  have hnodup' : (sortBy f l').Nodup := (sortBy_perm f l').nodup_iff.mpr hl'
  have hsorted : (sortBy f l).Perm (sortBy f l') := (sortBy_perm f l).trans (hperm.trans (sortBy_perm f l').symm)
  have hsame : (sortBy f l').Pairwise fun a b => [a, b].Sublist (sortBy f l) := by
    rw [pairwise_iff_forall_sublist]
    intro a b hab
    have hle : f a ≤ f b := pairwise_iff_forall_sublist.mp (sortBy_pairwise f l') hab
    have hne : a ≠ b := by
      rintro rfl
      exact not_pair_pair hnodup' hab hab
    have ha : a ∈ sortBy f l := hsorted.mem_iff.mpr (hab.subset (by simp))
    have hb : b ∈ sortBy f l := hsorted.mem_iff.mpr (hab.subset (by simp))
    refine (pair_or_pair ha hb hne).resolve_right fun hba => ?_
    have hge : f b ≤ f a := pairwise_iff_forall_sublist.mp (sortBy_pairwise f l) hba
    exact hties b a (le_antisymm hge hle) (pair_of_sortBy hl hle hba) (pair_of_sortBy hl' hge hab)
  refine Perm.eq_of_pairwise (fun a b _ _ hab hba => ?_)
    (pairwise_iff_forall_sublist.mpr fun h => h) hsame hsorted
  exact absurd hba (not_pair_pair hnodup hab)

/-! ## By insertion -/

abbrev order (f : α → β) (l : List α) : List α := l.insertionSort fun a b => f a ≤ f b

theorem order_pairwise (f : α → β) (l : List α) : (order f l).Pairwise fun a b => f a ≤ f b := by
  exact pairwise_insertionSort _ l

theorem filter_orderedInsert (f : α → β) (p : α → Bool) (a : α) {l : List α} (hl : l.Pairwise fun b c => f b ≤ f c) :
    (l.orderedInsert (fun b c => f b ≤ f c) a).filter p =
      if p a then (l.filter p).orderedInsert (fun b c => f b ≤ f c) a else l.filter p := by
  induction l with
  | nil => grind
  | cons b l ih =>
    cases hf : l.filter p with
    | nil => grind
    | cons c l' =>
      have hc : c ∈ l := (mem_filter.mp (hf ▸ mem_cons_self)).1
      have hbc : f b ≤ f c := rel_of_pairwise_cons hl hc
      grind

theorem filter_order (f : α → β) (p : α → Bool) (l : List α) : (order f l).filter p = order f (l.filter p) := by
  induction l with
  | nil => rfl
  | cons a l ih =>
    rw [order, insertionSort_cons, filter_orderedInsert f p a (order_pairwise f l), ih]
    cases hp : p a <;> simp [hp]

/-- Lists in order are one list when every key has the same elements in both. -/
theorem eq_of_filter_eq (hl : l.Pairwise fun a b => f a ≤ f b) (hl' : l'.Pairwise fun a b => f a ≤ f b)
    (h : ∀ k, l.filter (f · = k) = l'.filter (f · = k)) : l = l' := by
  induction l generalizing l' with
  | nil =>
    cases l' with
    | nil => rfl
    | cons b l' => simpa using h (f b)
  | cons a l ih =>
    cases l' with
    | nil => simpa using h (f a)
    | cons b l' =>
      have ha : a ∈ b :: l' := (mem_filter.mp (h (f a) ▸ mem_filter.mpr ⟨mem_cons_self, by simp⟩)).1
      have hb : b ∈ a :: l := (mem_filter.mp ((h (f b)).symm ▸ mem_filter.mpr ⟨mem_cons_self, by simp⟩)).1
      have hab : f a = f b := by
        rcases mem_cons.mp ha with rfl | ha'
        · rfl
        rcases mem_cons.mp hb with rfl | hb'
        · rfl
        exact le_antisymm (rel_of_pairwise_cons hl hb') (rel_of_pairwise_cons hl' ha')
      have hhead := h (f a)
      simp only [filter_cons, hab, decide_true, if_true, cons.injEq] at hhead
      obtain ⟨rfl, -⟩ := hhead
      refine congrArg _ (ih hl.of_cons hl'.of_cons fun k => ?_)
      have hk := h k
      simp only [filter_cons] at hk
      split_ifs at hk with hp
      · exact (cons.inj hk).2
      · exact hk

/-- Lists are ordered to one list exactly when the elements of every key come in the same order in both. -/
theorem order_eq_iff : order f l = order f l' ↔ ∀ k, l.filter (f · = k) = l'.filter (f · = k) := by
  have hkey : ∀ (l : List α) k, (order f l).filter (f · = k) = l.filter (f · = k) := by
    intro l k
    rw [filter_order]
    refine Pairwise.insertionSort_eq (Pairwise.imp_of_mem (fun ha hb _ => ?_) (pairwise_of_forall fun _ _ => trivial))
    rw [of_decide_eq_true (mem_filter.mp ha).2, of_decide_eq_true (mem_filter.mp hb).2]
  constructor
  · intro h k
    rw [← hkey l, ← hkey l', h]
  · intro h
    exact eq_of_filter_eq (order_pairwise f l) (order_pairwise f l') fun k => by rw [hkey, hkey, h]

end Ranked
