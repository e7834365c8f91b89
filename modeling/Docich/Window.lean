import Mathlib.Data.Finset.Card

/-!
# A window of the last keys

A list of keys in the order they came, and a window with the last of them (`recent`): `remember` adds a key to the
window and lets the oldest go. When every key is new to the window it meets (`Fresh`), the window has no key twice, and
between two occurrences of a key stand as many others as the window holds.
-/

namespace Window

open List

variable {κ : Type} [DecidableEq κ] {limit : Int} {keys : List κ} {k : κ}

/-- A new key is appended; beyond the limit the oldest one goes. -/
def remember (limit : Int) (seen : List κ) (k : κ) : List κ :=
  let seen := seen ++ [k]
  if limit < seen.length then seen.tail else seen

/-- The keys that a window of this limit still holds. -/
def recent (limit : Int) (keys : List κ) : List κ := keys.drop (keys.length - limit.toNat)

omit [DecidableEq κ] in
theorem remember_recent (limit : Int) (keys : List κ) (k : κ) :
    remember limit (recent limit keys) k = recent limit (keys ++ [k]) := by
  unfold remember recent
  simp only [length_append, length_drop, length_singleton]
  by_cases hshort : keys.length < limit.toNat
  · have h0 : keys.length - limit.toNat = 0 := by omega
    have h1 : keys.length + 1 - limit.toNat = 0 := by omega
    rw [if_neg (by omega), h0, h1, drop_zero, drop_zero]
  · have hsucc : keys.length + 1 - limit.toNat = keys.length - limit.toNat + 1 := by omega
    rw [if_pos (by omega), hsucc, ← drop_append_of_le_length (by omega), tail_drop]

/-- Every key is new to the window that it meets. -/
inductive Fresh (limit : Int) : List κ → Prop
  | nil : Fresh limit []
  | snoc {keys : List κ} (h : Fresh limit keys) {k : κ} (hk : k ∉ recent limit keys) : Fresh limit (keys ++ [k])

omit [DecidableEq κ] in
theorem Fresh.nodup_recent (h : Fresh limit keys) : (recent limit keys).Nodup := by
  induction h with
  | nil => simp [recent]
  | @snoc keys _ k hk ih =>
    rw [← remember_recent]
    have hall : (recent limit keys ++ [k]).Nodup := by
      apply nodup_append.mpr ⟨ih, nodup_singleton k, ?_⟩
      intro x hx y hy he
      rw [mem_singleton.mp hy] at he
      exact hk (he ▸ hx)
    unfold remember
    dsimp only
    split
    · exact hall.sublist (tail_sublist _)
    · exact hall

/-- Between two occurrences of a key there are as many other keys as the window holds. -/
theorem Fresh.between (h : Fresh limit keys) {a b c : List κ} (he : keys = a ++ k :: (b ++ k :: c)) :
    limit ≤ (b.toFinset.erase k).card := by
  induction h generalizing c with
  | nil => simp at he
  | @snoc keys hkeys k' hk ih =>
    rcases eq_nil_or_concat c with rfl | ⟨c, last, rfl⟩
    · have hsplit : keys ++ [k'] = (a ++ k :: b) ++ [k] := by simpa using he
      obtain ⟨rfl, hlast⟩ := append_inj' hsplit rfl
      obtain rfl : k' = k := singleton_inj.mp hlast
      have hnodup := hkeys.nodup_recent
      -- the window lies behind the first occurrence
      have hlong : limit.toNat ≤ b.length := by
        by_contra hshort
        apply hk
        unfold recent
        have hdrop : (a ++ k' :: b).length - limit.toNat ≤ a.length := by
          simp only [length_append, length_cons]
          omega
        rw [drop_append_of_le_length hdrop]
        exact mem_append_right _ mem_cons_self
      have hrecent : recent limit (a ++ k' :: b) = b.drop (b.length - limit.toNat) := by
        unfold recent
        have hlen : (a ++ k' :: b).length - limit.toNat = (a ++ [k']).length + (b.length - limit.toNat) := by
          simp only [length_append, length_cons, length_nil]
          omega
        have hassoc : a ++ k' :: b = (a ++ [k']) ++ b := by simp
        rw [hlen, hassoc, drop_append]
        simp
      rw [hrecent] at hnodup hk
      have hsub : (b.drop (b.length - limit.toNat)).toFinset ⊆ b.toFinset.erase k' := by
        intro x hx
        rw [mem_toFinset] at hx
        refine Finset.mem_erase.mpr ⟨?_, mem_toFinset.mpr (mem_of_mem_drop hx)⟩
        rintro rfl
        exact hk hx
      have hcard := Finset.card_le_card hsub
      rw [toFinset_card_of_nodup hnodup, length_drop] at hcard
      omega
    · have hsplit : keys ++ [k'] = (a ++ k :: (b ++ k :: c)) ++ [last] := by simpa using he
      exact ih (append_inj' hsplit rfl).1

end Window
