import Mathlib.Algebra.Order.BigOperators.Group.List
import Mathlib.Data.List.Nodup
import Mathlib.Tactic.Abel

/-!
# Keyed tables

A table is a list of rows, no two of which have the same key.

* `find?` looks a row up by its key, `insert?` adds a row with a new key, `update` rewrites the rows that a test
  selects, `upsert` replaces or adds a row, `delete` removes the row of a key.
* `sum` adds a value over the rows. It is what aggregate invariants of a store are stated with; `sum_insert` and
  `sum_update` say what the operations do to it.
-/

namespace Durable

open List Option

/-- Rows in the order of their insertion, with distinct keys. -/
structure Table {α κ : Type} (key : α → κ) where
  rows : List α
  nodup : (rows.map key).Nodup

namespace Table

variable {α κ : Type} {key : α → κ}

instance : Membership α (Table key) := ⟨fun t a => a ∈ t.rows⟩

variable {t : Table key} {a b : α} {p : α → Bool}

theorem mem_rows : a ∈ t.rows ↔ a ∈ t := Iff.rfl

def empty : Table key := ⟨[], nodup_nil⟩

@[simp] theorem not_mem_empty : a ∉ (empty : Table key) := by
  intro h
  cases h

/-- A key determines the row. -/
theorem eq_of_key_eq (ha : a ∈ t) (hb : b ∈ t) (h : key a = key b) : a = b :=
  inj_on_of_nodup_map t.nodup ha hb h

/-- Rewrite the rows that `p` selects. -/
def update (t : Table key) (p : α → Bool) (f : α → α) (hf : ∀ a, key (f a) = key a) : Table key where
  rows := t.rows.map fun a => if p a then f a else a
  nodup := by
    have h : (t.rows.map fun a => if p a then f a else a).map key = t.rows.map key := by
      rw [List.map_map]
      apply List.map_congr_left
      intro a _
      by_cases hp : p a <;> simp [hp, hf]
    rw [h]
    exact t.nodup

theorem mem_update {f : α → α} {hf : ∀ a, key (f a) = key a} :
    b ∈ t.update p f hf ↔ ∃ a ∈ t, b = if p a then f a else a := by
  constructor
  · intro h
    obtain ⟨a, ha, rfl⟩ := mem_map.mp h
    exact ⟨a, ha, rfl⟩
  · rintro ⟨a, ha, rfl⟩
    exact mem_map.mpr ⟨a, ha, rfl⟩

/-- Rewrite the rows, and leave out those for which there is no new one. -/
def refresh (t : Table key) (f : α → Option α) (hf : ∀ a b, f a = some b → key b = key a) : Table key where
  rows := t.rows.filterMap f
  nodup := by
    have h : ((t.rows.filterMap f).map key).Sublist (t.rows.map key) := by
      induction t.rows with
      | nil => simp
      | cons a rows ih =>
        cases hfa : f a with
        | none =>
          rw [filterMap_cons_none hfa]
          exact ih.cons _
        | some b =>
          rw [filterMap_cons_some hfa, map_cons, map_cons, hf a b hfa]
          exact ih.cons_cons _
    exact t.nodup.sublist h

theorem mem_refresh {f : α → Option α} {hf : ∀ a b, f a = some b → key b = key a} :
    b ∈ t.refresh f hf ↔ ∃ a ∈ t, f a = some b := mem_filterMap

def filter (t : Table key) (p : α → Bool) : Table key where
  rows := t.rows.filter p
  nodup := t.nodup.sublist (filter_sublist.map key)

theorem mem_filter : a ∈ t.filter p ↔ a ∈ t ∧ p a = true := List.mem_filter

/-- The same rows in another order. -/
def arrange (t : Table key) (rows : List α) (h : rows.Perm t.rows) : Table key where
  rows := rows
  nodup := (h.map key).nodup_iff.mpr t.nodup

theorem mem_arrange {rows : List α} {h : rows.Perm t.rows} : a ∈ t.arrange rows h ↔ a ∈ t := h.mem_iff

section Keys

variable [DecidableEq κ]

def find? (t : Table key) (k : κ) : Option α := t.rows.find? fun a => key a = k

variable {t : Table key} {k : κ} {a b : α} {t' : Table key}

theorem find?_eq_some : t.find? k = some a ↔ a ∈ t ∧ key a = k := by
  constructor
  · intro h
    exact ⟨mem_of_find?_eq_some h, by simpa using List.find?_some h⟩
  · rintro ⟨ha, rfl⟩
    obtain ⟨b, hb⟩ : ∃ b, t.find? (key a) = some b := by
      rw [← isSome_iff_exists, find?, List.find?_isSome]
      exact ⟨a, ha, by simp⟩
    have hkey : key b = key a := by simpa using List.find?_some hb
    rw [hb, eq_of_key_eq (mem_of_find?_eq_some hb) ha hkey]

theorem find?_eq_none : t.find? k = none ↔ ∀ a ∈ t, key a ≠ k := by
  simp [find?, List.find?_eq_none, mem_rows]

/-- Add a row; `none` when the key is taken. -/
def insert? (t : Table key) (a : α) : Option (Table key) :=
  if h : key a ∈ t.rows.map key then
    none
  else
    some ⟨t.rows ++ [a], by
      rw [map_append, map_singleton]
      exact nodup_append.mpr ⟨t.nodup, nodup_singleton _, by
        intro k hk k' hk' he
        rw [mem_singleton] at hk'
        exact h (hk' ▸ he ▸ hk)⟩⟩

theorem insert?_eq_some (h : t.insert? a = some t') :
    t'.rows = t.rows ++ [a] ∧ ∀ b ∈ t, key b ≠ key a := by
  unfold insert? at h
  split at h
  · cases h
  · next hk =>
    cases h
    exact ⟨rfl, fun b hb he => hk (mem_map.mpr ⟨b, hb, he⟩)⟩

theorem mem_insert? (h : t.insert? a = some t') : b ∈ t' ↔ b ∈ t ∨ b = a := by
  rw [← mem_rows, (insert?_eq_some h).1]
  simp [mem_rows]

/-- Only a taken key is refused. -/
theorem insert?_eq_none : t.insert? a = none ↔ ∃ b ∈ t, key b = key a := by
  unfold insert?
  split
  · next hk => simpa [mem_rows] using hk
  · next hk => simpa [mem_rows] using hk

def delete (t : Table key) (k : κ) : Table key where
  rows := t.rows.filter fun a => key a ≠ k
  nodup := t.nodup.sublist (filter_sublist.map key)

theorem mem_delete : a ∈ t.delete k ↔ a ∈ t ∧ key a ≠ k := by
  simp [← mem_rows, delete]

/-- Replace the row with the key of `a`, or add it. -/
def upsert (t : Table key) (a : α) : Table key :=
  match h : t.insert? a with
  | some t' => t'
  | none => ⟨t.rows.map fun b => if key b = key a then a else b, by
      have hkeys : (t.rows.map fun b => if key b = key a then a else b).map key = t.rows.map key := by
        rw [List.map_map]
        apply List.map_congr_left
        intro b _
        by_cases hb : key b = key a <;> simp [hb]
      rw [hkeys]
      exact t.nodup⟩

theorem mem_upsert : b ∈ t.upsert a ↔ b = a ∨ b ∈ t ∧ key b ≠ key a := by
  unfold upsert
  split
  · next t' h =>
    rw [mem_insert? h]
    obtain ⟨-, hne⟩ := insert?_eq_some h
    constructor
    · rintro (hb | rfl)
      · exact .inr ⟨hb, hne b hb⟩
      · exact .inl rfl
    · rintro (rfl | ⟨hb, -⟩)
      · exact .inr rfl
      · exact .inl hb
  · next h =>
    obtain ⟨c, hc, hck⟩ := insert?_eq_none.mp h
    rw [← mem_rows]
    simp only [List.mem_map]
    constructor
    · rintro ⟨d, hd, rfl⟩
      by_cases hda : key d = key a
      · exact .inl (by simp [hda])
      · exact .inr ⟨by simpa [hda, mem_rows] using hd, by simp [hda]⟩
    · rintro (rfl | ⟨hb, hne⟩)
      · exact ⟨c, hc, by simp [hck]⟩
      · exact ⟨b, hb, by simp [hne]⟩

/-- A row with a new key is added at the end. -/
theorem upsert_new (h : t.find? (key a) = none) : (t.upsert a).rows = t.rows ++ [a] := by
  unfold upsert
  split
  · next t' h' => exact (insert?_eq_some h').1
  · next h' =>
    obtain ⟨b, hb, hkb⟩ := insert?_eq_none.mp h'
    exact absurd hkb (find?_eq_none.mp h b hb)

theorem find?_update (t : Table key) (p : α → Bool) (f : α → α) (hf : ∀ a, key (f a) = key a) (k : κ) :
    (t.update p f hf).find? k = (t.find? k).map fun a => if p a then f a else a := by
  cases ht : t.find? k with
  | none =>
    rw [map_none, find?_eq_none]
    intro b hb
    obtain ⟨a, ha, rfl⟩ := mem_update.mp hb
    have hne := find?_eq_none.mp ht a ha
    split
    · rw [hf]
      exact hne
    · exact hne
  | some a =>
    obtain ⟨ha, hk⟩ := find?_eq_some.mp ht
    rw [map_some, find?_eq_some]
    refine ⟨mem_update.mpr ⟨a, ha, rfl⟩, ?_⟩
    split
    · rw [hf, hk]
    · exact hk

theorem find?_insert (h : t.insert? a = some t') (k : κ) :
    t'.find? k = if k = key a then some a else t.find? k := by
  by_cases hk : k = key a
  · rw [if_pos hk, find?_eq_some]
    exact ⟨(mem_insert? h).mpr (.inr rfl), hk.symm⟩
  · rw [if_neg hk]
    apply Option.ext
    intro b
    rw [find?_eq_some, find?_eq_some, mem_insert? h]
    constructor
    · rintro ⟨hb | rfl, hbk⟩
      · exact ⟨hb, hbk⟩
      · exact absurd hbk.symm hk
    · rintro ⟨hb, hbk⟩
      exact ⟨.inl hb, hbk⟩

theorem find?_delete (t : Table key) (k j : κ) : (t.delete k).find? j = if j = k then none else t.find? j := by
  by_cases hjk : j = k
  · rw [if_pos hjk, find?_eq_none]
    intro a ha
    rw [hjk]
    exact (mem_delete.mp ha).2
  · rw [if_neg hjk]
    apply Option.ext
    intro a
    rw [find?_eq_some, find?_eq_some, mem_delete]
    constructor
    · rintro ⟨⟨ha, -⟩, hk⟩
      exact ⟨ha, hk⟩
    · rintro ⟨ha, hk⟩
      exact ⟨⟨ha, by rw [hk]; exact hjk⟩, hk⟩

theorem find?_upsert (t : Table key) (a : α) (j : κ) :
    (t.upsert a).find? j = if j = key a then some a else t.find? j := by
  by_cases hj : j = key a
  · rw [if_pos hj, find?_eq_some]
    exact ⟨mem_upsert.mpr (.inl rfl), hj.symm⟩
  · rw [if_neg hj]
    apply Option.ext
    intro b
    rw [find?_eq_some, find?_eq_some, mem_upsert]
    constructor
    · rintro ⟨rfl | ⟨hb, -⟩, hk⟩
      · exact absurd hk.symm hj
      · exact ⟨hb, hk⟩
    · rintro ⟨hb, hk⟩
      exact ⟨.inr ⟨hb, by rw [hk]; exact hj⟩, hk⟩

end Keys

/-! ## Sums over the rows -/

section Sums

variable {M : Type} [AddCommGroup M] {g : α → M}

def sum (t : Table key) (g : α → M) : M := (t.rows.map g).sum

@[simp] theorem sum_empty : (empty : Table key).sum g = 0 := rfl

variable {t : Table key}
variable {g' : α → M} {a : α} {p : α → Bool} {f : α → α} {hf : ∀ a, key (f a) = key a}
    {rows : List α}

theorem sum_congr (h : ∀ a ∈ t, g a = g' a) : t.sum g = t.sum g' := by
  unfold sum
  rw [map_congr_left h]

theorem sum_eq_zero (h : ∀ a ∈ t, g a = 0) : t.sum g = 0 := by
  apply List.sum_eq_zero
  intro x hx
  obtain ⟨a, ha, rfl⟩ := List.mem_map.mp hx
  exact h a ha

theorem sum_insert [DecidableEq κ] {t' : Table key} (h : t.insert? a = some t') : t'.sum g = t.sum g + g a := by
  unfold sum
  rw [(insert?_eq_some h).1, map_append, sum_append]
  simp

theorem sum_update :
    (t.update p f hf).sum g = t.sum fun a => if p a then g (f a) else g a := by
  unfold sum update
  rw [List.map_map]
  congr 1
  apply List.map_congr_left
  intro a _
  by_cases hp : p a <;> simp [hp]

theorem sum_map_single (hnd : rows.Nodup) (ha : a ∈ rows)
    (h : ∀ b ∈ rows, b ≠ a → g b = 0) : (rows.map g).sum = g a := by
  induction rows with
  | nil => cases ha
  | cons b rows ih =>
    obtain ⟨hb, hrest⟩ := List.nodup_cons.mp hnd
    simp only [List.map_cons, List.sum_cons]
    rcases List.mem_cons.mp ha with rfl | ha'
    · have hz : (rows.map g).sum = 0 := by
        apply List.sum_eq_zero
        intro x hx
        obtain ⟨c, hc, rfl⟩ := List.mem_map.mp hx
        exact h c (List.mem_cons_of_mem _ hc) (fun he => hb (he ▸ hc))
      rw [hz, add_zero]
    · have hba : b ≠ a := fun he => hb (he ▸ ha')
      rw [h b List.mem_cons_self hba, zero_add]
      exact ih hrest ha' (fun c hc => h c (List.mem_cons_of_mem _ hc))

/-- Where at most one element has a value, the sum is within that value's bound. -/
theorem sum_map_le_of_nodup [Preorder M] {ι : Type} {f : α → ι} (hnd : (rows.map f).Nodup) {i : ι}
    {bound : M} (hbound : 0 ≤ bound) (hle : ∀ a ∈ rows, f a = i → g a ≤ bound) (hzero : ∀ a ∈ rows, f a ≠ i → g a = 0) :
    (rows.map g).sum ≤ bound := by
  by_cases h : ∃ a ∈ rows, f a = i
  · obtain ⟨a, ha, hai⟩ := h
    have hsum : (rows.map g).sum = g a := by
      apply sum_map_single (List.Nodup.of_map f hnd) ha
      intro b hb hne
      apply hzero b hb
      intro hbi
      exact hne (List.inj_on_of_nodup_map hnd hb ha (hbi.trans hai.symm))
    rw [hsum]
    exact hle a ha hai
  · have hsum : (rows.map g).sum = 0 := by
      apply List.sum_eq_zero
      intro x hx
      obtain ⟨a, ha, rfl⟩ := List.mem_map.mp hx
      exact hzero a ha (fun hai => h ⟨a, ha, hai⟩)
    rw [hsum]
    exact hbound

/-- The sum of a value that one row has and all others lack. -/
theorem sum_single (ha : a ∈ t) (h : ∀ b ∈ t, b ≠ a → g b = 0) : t.sum g = g a :=
  sum_map_single (Nodup.of_map key t.nodup) ha h

theorem sum_sub : (t.sum fun a => g a - g' a) = t.sum g - t.sum g' := by
  unfold sum
  induction t.rows with
  | nil => simp
  | cons a rows ih =>
    simp only [map_cons, sum_cons, ih]
    abel

theorem sum_add : (t.sum fun a => g a + g' a) = t.sum g + t.sum g' := by
  unfold sum
  induction t.rows with
  | nil => simp
  | cons a rows ih =>
    simp only [map_cons, sum_cons, ih]
    abel

/-- Without the row of a key, the sum lacks that row's value. -/
theorem sum_without [DecidableEq κ] (t : Table key) (k : κ) :
    (t.sum fun b => if key b = k then 0 else g b) = t.sum g - ((t.find? k).map g).getD 0 := by
  cases hf : t.find? k with
  | none =>
    have hne := find?_eq_none.mp hf
    rw [map_none, getD_none, sub_zero]
    apply sum_congr
    intro b hb
    rw [if_neg (hne b hb)]
  | some a =>
    obtain ⟨ha, hk⟩ := find?_eq_some.mp hf
    rw [map_some, getD_some]
    have hdiff : (t.sum fun b => g b - if key b = k then 0 else g b) = g a := by
      rw [sum_single ha]
      · rw [if_pos hk, sub_zero]
      · intro b hb hne
        rw [if_neg (fun he => hne (eq_of_key_eq hb ha (he.trans hk.symm))), sub_self]
    rw [sum_sub] at hdiff
    rw [← hdiff]
    abel

theorem sum_delete [DecidableEq κ] (t : Table key) (k : κ) :
    (t.delete k).sum g = t.sum g - ((t.find? k).map g).getD 0 := by
  rw [← sum_without]
  have hrows : ∀ rows : List α, ((rows.filter fun b => key b ≠ k).map g).sum =
      (rows.map fun b => if key b = k then 0 else g b).sum := by
    intro rows
    induction rows with
    | nil => rfl
    | cons b rows ih =>
      by_cases hb : key b = k
      · simpa [hb] using ih
      · simpa [hb] using ih
  exact hrows t.rows

theorem sum_upsert [DecidableEq κ] (t : Table key) (a : α) :
    (t.upsert a).sum g = t.sum g - ((t.find? (key a)).map g).getD 0 + g a := by
  unfold upsert
  split
  · next t' h =>
    have hnone : t.find? (key a) = none := find?_eq_none.mpr (insert?_eq_some h).2
    rw [sum_insert h, hnone, map_none, getD_none, sub_zero]
  · next h =>
    obtain ⟨c, hc, hck⟩ := insert?_eq_none.mp h
    -- The row that is replaced is the only one with its key.
    have hone : (t.sum fun b => if key b = key a then g a else 0) = g a := by
      rw [sum_single hc]
      · rw [if_pos hck]
      · intro b hb hne
        rw [if_neg (fun he => hne (eq_of_key_eq hb hc (he.trans hck.symm)))]
    rw [← sum_without, ← hone, ← sum_add]
    unfold sum
    rw [List.map_map]
    congr 1
    apply List.map_congr_left
    intro b _
    by_cases hb : key b = key a
    · simp [hb]
    · simp [hb]

/-- Rewriting rows that all keep their value leaves the sum. -/
theorem sum_update_same (h : ∀ a ∈ t, p a → g (f a) = g a) : (t.update p f hf).sum g = t.sum g := by
  rw [sum_update]
  apply sum_congr
  intro a ha
  by_cases hp : p a
  · simp [hp, h a ha hp]
  · simp [hp]

end Sums

section Order

variable {M : Type} [AddCommGroup M] [PartialOrder M] [IsOrderedAddMonoid M] {g g' : α → M}

theorem sum_nonneg {t : Table key} (h : ∀ a ∈ t, 0 ≤ g a) : 0 ≤ t.sum g := by
  apply List.sum_nonneg
  intro x hx
  obtain ⟨a, ha, rfl⟩ := List.mem_map.mp hx
  exact h a ha

theorem sum_le_sum {t : Table key} (h : ∀ a ∈ t, g a ≤ g' a) : t.sum g ≤ t.sum g' := by
  exact List.sum_le_sum h

end Order

end Table

end Durable
