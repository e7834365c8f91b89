import Mathlib.Data.Finset.Max
import Mathlib.Order.Interval.Finset.Defs

/-!
# The greatest elements of a set

- `greatest k s`: the elements of `s` with fewer than `k` greater ones;
- `greatest_insert`: to keep the `k` greatest elements at each insertion keeps the `k` greatest of all;
- `mem_take_sorted`: the elements before the last `k` of a sorted list are not among them.
-/

namespace Ranked

open List Finset

variable {α : Type*} [LinearOrder α] {k : ℕ} {s : Finset α} {a x : α}

/-- The elements of `s` that are greater. -/
def above (s : Finset α) (x : α) : Finset α := s.filter (x < ·)

/-- The elements with fewer than `k` greater ones. -/
def greatest (k : ℕ) (s : Finset α) : Finset α := s.filter fun x => (above s x).card < k

theorem mem_greatest : x ∈ greatest k s ↔ x ∈ s ∧ (above s x).card < k := mem_filter

theorem above_subset {t : Finset α} (h : s ⊆ t) (x : α) : above s x ⊆ above t x := filter_subset_filter _ h

theorem greatest_subset (k : ℕ) (s : Finset α) : greatest k s ⊆ s := filter_subset _ _

/-- There are `k` of them, when there are so many elements. -/
theorem card_greatest (k : ℕ) (s : Finset α) : (greatest k s).card = min k s.card := by
  induction s using Finset.induction_on_min with
  | empty => simp [greatest]
  | insert m s hm ih =>
    have hnot : m ∉ s := fun h => lt_irrefl m (hm m h)
    have habove : above (insert m s) m = s := by
      ext y
      simp only [above, Finset.mem_filter, Finset.mem_insert]
      constructor
      · rintro ⟨rfl | hy, hlt⟩
        · exact absurd hlt (lt_irrefl _)
        · exact hy
      · exact fun hy => ⟨.inr hy, hm y hy⟩
    have hsame : ∀ y ∈ s, above (insert m s) y = above s y := by
      intro y hy
      ext z
      simp only [above, Finset.mem_filter, Finset.mem_insert]
      constructor
      · rintro ⟨rfl | hz, hlt⟩
        · exact absurd (hlt.trans (hm y hy)) (lt_irrefl _)
        · exact ⟨hz, hlt⟩
      · exact fun ⟨hz, hlt⟩ => ⟨.inr hz, hlt⟩
    have hrest : (insert m s).filter (fun x => (above (insert m s) x).card < k) =
        if s.card < k then insert m (greatest k s) else greatest k s := by
      rw [Finset.filter_insert, habove]
      have hfilter : (s.filter fun x => (above (insert m s) x).card < k) = greatest k s :=
        Finset.filter_congr fun y hy => by rw [hsame y hy]
      rw [hfilter]
    rw [greatest, hrest, Finset.card_insert_of_notMem hnot]
    split
    · rw [Finset.card_insert_of_notMem fun h => hnot (greatest_subset k s h), ih]
      omega
    · rw [ih]
      omega

/-- Above an element that is not among the `k` greatest, `k` of them stand. -/
theorem le_card_above (hx : x ∈ s) (hnot : x ∉ greatest k s) : k ≤ (above (greatest k s) x).card := by
  have hmany : k ≤ (above s x).card := by
    by_contra hlt
    exact hnot (mem_greatest.mpr ⟨hx, not_le.mp hlt⟩)
  have hsame : greatest k (above s x) = above (greatest k s) x := by
    have habove : ∀ y, x < y → above (above s x) y = above s y := by
      intro y hy
      ext z
      simp only [above, Finset.mem_filter]
      exact ⟨fun h => ⟨h.1.1, h.2⟩, fun h => ⟨⟨h.1, hy.trans h.2⟩, h.2⟩⟩
    ext y
    simp only [greatest, Finset.mem_filter]
    constructor
    · rintro ⟨hy, hcard⟩
      have hlt := (Finset.mem_filter.mp hy).2
      rw [habove y hlt] at hcard
      exact Finset.mem_filter.mpr ⟨Finset.mem_filter.mpr ⟨(Finset.mem_filter.mp hy).1, hcard⟩, hlt⟩
    · intro hy
      obtain ⟨hy, hlt⟩ := Finset.mem_filter.mp hy
      obtain ⟨hmem, hcard⟩ := Finset.mem_filter.mp hy
      exact ⟨Finset.mem_filter.mpr ⟨hmem, hlt⟩, by rwa [habove y hlt]⟩
  rw [← hsame, card_greatest]
  omega

/-- **Streaming.** What is kept of the kept elements and a new one is what is kept of all. -/
theorem greatest_insert (k : ℕ) (s : Finset α) (a : α) : greatest k (insert a (greatest k s)) = greatest k (insert a s) := by
  have hsub : insert a (greatest k s) ⊆ insert a s := insert_subset_insert a (greatest_subset k s)
  ext x
  constructor
  · intro hx
    rw [mem_greatest] at hx ⊢
    refine ⟨hsub hx.1, lt_of_le_of_lt (card_le_card fun y hy => ?_) hx.2⟩
    obtain ⟨hy, hlt⟩ := mem_filter.mp hy
    refine mem_filter.mpr ⟨?_, hlt⟩
    rcases mem_insert.mp hy with rfl | hy
    · exact mem_insert_self _ _
    · refine mem_insert_of_mem ?_
      by_contra hnot
      -- the `k` kept elements above `y` stand above `x` too
      have hcount := le_card_above hy hnot
      have hmore : (above (greatest k s) y).card ≤ (above (insert a (greatest k s)) x).card := by
        refine card_le_card fun z hz => ?_
        obtain ⟨hz, hyz⟩ := mem_filter.mp hz
        exact mem_filter.mpr ⟨mem_insert_of_mem hz, hlt.trans hyz⟩
      omega
  · intro hx
    rw [mem_greatest] at hx ⊢
    refine ⟨?_, lt_of_le_of_lt (card_le_card (above_subset hsub x)) hx.2⟩
    rcases mem_insert.mp hx.1 with rfl | hmem
    · exact mem_insert_self _ _
    · refine mem_insert_of_mem (mem_greatest.mpr ⟨hmem, ?_⟩)
      exact lt_of_le_of_lt (card_le_card (above_subset (subset_insert a s) x)) hx.2

theorem greatest_of_card_le (h : s.card ≤ k) : greatest k s = s := by
  refine eq_of_subset_of_card_le (greatest_subset k s) ?_
  rw [card_greatest]
  omega

def elements (l : List α) : Finset α := l.toFinset

variable {l : List α}

@[simp] theorem mem_elements : x ∈ elements l ↔ x ∈ l := mem_toFinset

theorem card_elements (h : l.Nodup) : (elements l).card = l.length := toFinset_card_of_nodup h

theorem card_above (h : l.Nodup) (x : α) : (above (elements l) x).card = (l.filter (x < ·)).length := by
  rw [← card_elements (h.filter _)]
  congr 1
  ext y
  simp [above]

theorem elements_snoc (l : List α) (a : α) : elements (l ++ [a]) = insert a (elements l) := by
  ext x
  simp [or_comm]

theorem elements_of_mem (h : a ∈ l) : elements (l ++ [a]) = elements l := by
  rw [elements_snoc, insert_eq_self]
  exact mem_elements.mpr h

/-- A list that has the `k` greatest elements of another has them again after both grow, and is cut again. -/
theorem greatest_snoc {l' : List α} (h : elements l' = greatest k (elements l)) (a : α) :
    greatest k (elements (l' ++ [a])) = greatest k (elements (l ++ [a])) := by
  rw [elements_snoc, elements_snoc, h, greatest_insert]

/-- The elements that a sorted list has before its last `k`. -/
theorem mem_take_sorted (hsorted : l.Pairwise (· < ·)) (hx : x ∈ l) :
    x ∈ l.take (l.length - k) ↔ x ∉ greatest k (elements l) := by
  have hnodup : l.Nodup := hsorted.imp fun h => h.ne
  have hsplit : l.take (l.length - k) ++ l.drop (l.length - k) = l := take_append_drop _ _
  have hpair := hsorted
  rw [← hsplit, pairwise_append] at hpair
  have hdrop : (elements (l.drop (l.length - k))).card = min k l.length := by
    rw [card_elements (hnodup.sublist (drop_sublist _ _)), length_drop]
    omega
  constructor
  · intro htake hgreat
    have hlong : k < l.length := by
      by_contra hle
      rw [show l.length - k = 0 by omega, take_zero] at htake
      cases htake
    have hsub : (elements (l.drop (l.length - k))) ⊆ above (elements l) x := by
      intro y hy
      rw [mem_elements] at hy
      exact Finset.mem_filter.mpr ⟨mem_elements.mpr (mem_of_mem_drop hy), hpair.2.2 x htake y hy⟩
    have hcard := Finset.card_le_card hsub
    have := (mem_greatest.mp hgreat).2
    omega
  · intro hnot
    by_contra htake
    have hmem : x ∈ l.drop (l.length - k) := by
      rw [← hsplit, mem_append] at hx
      exact hx.resolve_left htake
    refine hnot (mem_greatest.mpr ⟨mem_elements.mpr hx, ?_⟩)
    have hsub : above (elements l) x ⊆ (elements (l.drop (l.length - k))).erase x := by
      intro y hy
      obtain ⟨hy, hlt⟩ := Finset.mem_filter.mp hy
      rw [mem_elements, ← hsplit, mem_append] at hy
      rw [Finset.mem_erase, mem_elements]
      refine ⟨hlt.ne', hy.resolve_left fun hbefore => ?_⟩
      exact lt_asymm hlt (hpair.2.2 y hbefore x hmem)
    have hcard := Finset.card_le_card hsub
    rw [Finset.card_erase_of_mem (mem_elements.mpr hmem), hdrop] at hcard
    have hpos : 0 < (l.drop (l.length - k)).length := length_pos_of_mem hmem
    rw [length_drop] at hpos
    omega

end Ranked
