import Docich.Puyo.Board

/-!
# Chains

- `_resolve_chain`: the cells fall and groups are cleared, until nothing goes;
- `Cascade`: the same, said with the cells that go;
- `resolve_chain_cascade`: the two agree, and the bound on the steps is never met.
-/

namespace Docich.Puyo

open List

abbrev MIN_CONNECTION : ℕ := 4
abbrev MAX_CHAIN_STEPS : ℕ := BOARD_ROWS * BOARD_COLS / MIN_CONNECTION + 1

/-- The power of the chains `1` to `19`. -/
def CHAIN_BONUS : List ℕ :=
  [0, 8, 16, 32, 64, 96, 128, 160, 192, 224, 256, 288, 320, 352, 384, 416, 448, 480, 512]
def COLOR_BONUS : List ℕ := [0, 3, 6, 12]
/-- The bonus of the sizes `4` to `10`. -/
def GROUP_BONUS : List ℕ := [0, 2, 3, 4, 5, 6, 7]

def _chain_score (perPuyo chain_index : ℕ) (groups : List ℕ) (colors : Finset String) : ℕ :=
  (CHAIN_BONUS.getD (min chain_index 19 - 1) 512 + COLOR_BONUS.getD (min (max colors.card 1) 4 - 1) 12 +
    (groups.map fun size => GROUP_BONUS.getD (size - MIN_CONNECTION) 10).sum) * perPuyo * groups.sum

def clear (b : Board) (gone : List Cell) : Board := fun c => if c ∈ gone then none else b c

/-- `_clear_group`, after the groups before it. -/
def _clear_group (acc : Board × List ℕ × Finset String) (group : List Cell) :
    Except String (Board × List ℕ × Finset String) :=
  if group.length < MIN_CONNECTION then .error "group below min connection"
  else if ∃ c ∈ group, acc.1 c = none then .error "clearing an empty cell"
  else .ok (clear acc.1 group, acc.2.1 ++ [group.length], acc.2.2 ∪ (group.filterMap acc.1).toFinset)

def clearable (b : Board) : List (List Cell) :=
  (connected_groups b).filter fun g => MIN_CONNECTION ≤ g.length ∧ g.head?.bind b ≠ some OJAMA_COLOR

def ojama_cells (b : Board) (cleared : List Cell) : List Cell := cleared.flatMap (spread b OJAMA_COLOR)

structure Tally where
  total_blocks : ℕ := 0
  chain : ℕ := 0
  score : ℕ := 0
  all_clear : Bool := false

def _resolve_chain (perPuyo : ℕ) : ℕ → Board → Tally → Except String (Board × Tally)
  | 0, b, t => .ok (b, t)
  | n + 1, b, t =>
    let b := _settle b
    let groups := clearable b
    if groups = [] then .ok (b, t)
    else do
      let (b, counts, colors) ← groups.foldlM _clear_group (b, [], ∅)
      let b := clear b (ojama_cells b groups.flatten)
      _resolve_chain perPuyo n b {
        total_blocks := t.total_blocks + counts.sum
        chain := t.chain + 1
        score := t.score + _chain_score perPuyo (t.chain + 1) counts colors
        all_clear := t.all_clear || blocks_left b = 0 }

/-! ## Cascades -/

/-- A colour goes when at least four of its cells are joined. -/
def Goes (b : Board) (c : Cell) : Prop :=
  (b c).isSome ∧ b c ≠ some OJAMA_COLOR ∧ MIN_CONNECTION ≤ {d | Joined b c d}.ncard

/-- Ojama goes when it is beside a cell of a colour that goes. -/
def Gone (b : Board) (c : Cell) : Prop := Goes b c ∨ b c = some OJAMA_COLOR ∧ ∃ d, Goes b d ∧ Adjacent d c

open Classical in
noncomputable def after (b : Board) : Board := fun c => if Gone b c then none else b c

/-- The steps of a chain. -/
inductive Cascade : ℕ → Board → Board → Prop
  | done {b s} : Fallen b s → (∀ c, ¬Goes s c) → Cascade 0 b s
  | step {n b s c e} : Fallen b s → Goes s c → Cascade n (after s) e → Cascade (n + 1) b e

abbrev colored (color : String) : Bool := color ≠ OJAMA_COLOR

def amount (p : String → Bool) (b : Board) : ℕ := (Finset.univ.filter fun c => (b c).any p).card

variable {b s : Board} {c : Cell} {p : String → Bool}

theorem amount_fallen (h : Fallen b s) : amount p s = amount p b := by
  have hcolumns (b : Board) : amount p b = ∑ x, (column b x).countP p := by
    rw [amount, Finset.card_filter, Fintype.sum_prod_type]
    refine Finset.sum_congr rfl fun x _ => ?_
    rw [← Finset.card_filter, column, countP_filterMap, countP_eq_length_filter]
    exact congrArg length (filter_congr fun y _ => by cases h : b (x, y) <;> simp [h])
  rw [hcolumns, hcolumns]
  exact Finset.sum_congr rfl fun x _ => by rw [h.1 x]

theorem mem_clearable : c ∈ (clearable b).flatten ↔ Goes b c := by
  have hgroup := (scanned b cells).group
  have hsize {g : List Cell} (hg : g ∈ connected_groups b) (hc : c ∈ g) :
      {d | Joined b c d}.ncard = g.length ∧ g.head?.bind b = b c := by
    constructor
    · rw [← toFinset_card_of_nodup ((nodup_flatten.mp nodup_groups).1 g hg), ← Set.ncard_coe_finset]
      exact congrArg _ (Set.ext fun d => by simp [hgroup g hg c hc d])
    · cases g with
      | nil => cases hc
      | cons d g => exact ((hgroup _ hg c hc d).mp mem_cons_self).same.symm
  have hocc := mem_groups (b := b) (c := c)
  simp only [clearable, mem_flatten, mem_filter, decide_eq_true_eq] at hocc ⊢
  constructor
  · rintro ⟨g, ⟨hg, hlen, hhead⟩, hc⟩
    obtain ⟨hn, hb⟩ := hsize hg hc
    exact ⟨hocc.mp ⟨g, hg, hc⟩, hb ▸ hhead, hn ▸ hlen⟩
  · rintro ⟨hsome, hcolor, hlen⟩
    obtain ⟨g, hg, hc⟩ := hocc.mpr hsome
    obtain ⟨hn, hb⟩ := hsize hg hc
    exact ⟨g, ⟨hg, hn ▸ hlen, hb ▸ hcolor⟩, hc⟩

theorem clear_groups {gs : List (List Cell)} {counts : List ℕ} {colors : Finset String} (hn : gs.flatten.Nodup)
    (hg : ∀ c ∈ gs.flatten, (b c).isSome) (hlen : ∀ g ∈ gs, MIN_CONNECTION ≤ g.length) :
    ∃ colors', gs.foldlM _clear_group (b, counts, colors) = .ok (clear b gs.flatten, counts ++ gs.map length, colors') := by
  induction gs generalizing b counts colors with
  | nil => exact ⟨colors, by simp; rfl⟩
  | cons g gs ih =>
    rw [flatten_cons] at hn hg
    have hfull : ¬∃ c ∈ g, b c = none := by
      rintro ⟨c, hc, hb⟩
      simpa [hb] using hg c (mem_append_left _ hc)
    have hrest (c) (hc : c ∈ gs.flatten) : (clear b g c).isSome := by
      have hout : c ∉ g := fun hin => (nodup_append.mp hn).2.2 c hin c hc rfl
      simpa [clear, hout] using hg c (mem_append_right _ hc)
    obtain ⟨colors', h⟩ := @ih _ (counts ++ [g.length]) (colors ∪ (g.filterMap b).toFinset) (nodup_append.mp hn).2.1 hrest
      fun g hg => hlen g (mem_cons_of_mem _ hg)
    refine ⟨colors', ?_⟩
    rw [foldlM_cons, _clear_group, if_neg (not_lt.mpr (hlen g mem_cons_self)), if_neg hfull]
    refine h.trans ?_
    congr 2
    · funext c
      by_cases hc : c ∈ g <;> simp [clear, hc]
    · simp

theorem after_gone (h : Gone b c) : after b c = none := if_pos h

theorem after_kept (h : ¬Gone b c) : after b c = b c := if_neg h

section Step

variable {cleared : List Cell} (hm : ∀ c, c ∈ cleared ↔ Goes b c)

include hm

theorem clear_gone : clear (clear b cleared) (ojama_cells (clear b cleared) cleared) = after b := by
  funext c
  by_cases hg : Goes b c
  · simp [clear, after_gone (.inl hg), hm, hg]
  · have hc : clear b cleared c = b c := if_neg (hg ∘ (hm c).mp)
    rw [after, clear, hc]
    congr 1
    simp [ojama_cells, spread, mem_beside, hc, Gone, hm, hg, and_assoc, and_comm]

theorem amount_gone (hn : cleared.Nodup) : amount colored b = amount colored (after b) + cleared.length := by
  rw [← toFinset_card_of_nodup hn, amount, amount, ← Finset.card_union_of_disjoint]
  · congr 1
    ext c
    by_cases ho : Gone b c
    · obtain hg | ⟨hb, -⟩ := id ho
      · obtain ⟨color, hb⟩ := Option.isSome_iff_exists.mp hg.1
        have hcolor := hg.2.1
        simp_all
      · simp [after_gone ho, hm, Goes, hb]
    · simp [after_kept ho, hm, not_or.mp ho]
  · refine Finset.disjoint_left.mpr fun c hc hin => ?_
    simp [after_gone (.inl ((hm c).mp (mem_toFinset.mp hin)))] at hc

end Step

theorem nodup_clearable : (clearable b).flatten.Nodup := nodup_groups.sublist filter_sublist.flatten

theorem length_clearable : ∀ g ∈ clearable b, MIN_CONNECTION ≤ g.length := by simp +contextual [clearable]

theorem resolve_chain_step {t : Tally} (perPuyo : ℕ) (hc : clearable (_settle b) ≠ []) :
    ∃ t', (∀ n, _resolve_chain perPuyo (n + 1) b t = _resolve_chain perPuyo n (after (_settle b)) t') ∧
      t'.chain = t.chain + 1 ∧ t'.total_blocks = t.total_blocks + (clearable (_settle b)).flatten.length ∧
      t'.all_clear = (t.all_clear || blocks_left (after (_settle b)) = 0) := by
  obtain ⟨colors, hclear⟩ := @clear_groups (_settle b) _ [] ∅ nodup_clearable
    (fun c hc => (mem_clearable.mp hc).1) length_clearable
  rw [← clear_gone fun c => mem_clearable]
  refine ⟨?_, fun n => ?_, ?_⟩
  rotate_left
  · rw [_resolve_chain, if_neg hc, hclear]
    rfl
  · simp [length_flatten]

theorem cascade_of_lt (perPuyo n : ℕ) (b : Board) (t : Tally) (hn : amount colored b < MIN_CONNECTION * n)
    (ht : t.all_clear ↔ 0 < t.chain ∧ blocks_left b = 0) : ∃ e t' k, _resolve_chain perPuyo n b t = .ok (e, t') ∧
      Cascade k b e ∧ Settled e ∧ (∀ c, ¬Goes e c) ∧ t'.chain = t.chain + k ∧
      (t'.all_clear ↔ 0 < t'.chain ∧ blocks_left e = 0) ∧
      t'.total_blocks + amount colored e = t.total_blocks + amount colored b := by
  induction n generalizing b t with
  | zero => omega
  | succ n ih =>
    rw [Nat.mul_succ] at hn
    have hs := fallen_settle b
    have hcolors := amount_fallen (p := colored) hs
    have hblocks : blocks_left (_settle b) = blocks_left b := by
      simpa [amount, blocks_left] using amount_fallen (p := fun _ => true) hs
    by_cases hc : clearable (_settle b) = []
    · have hnone (c) (hg : Goes (_settle b) c) : False := by simpa [hc] using mem_clearable.mpr hg
      refine ⟨_settle b, t, 0, ?_, .done hs hnone, hs.2, hnone, rfl, by rw [ht, hblocks], by rw [hcolors]⟩
      rw [_resolve_chain, if_pos hc]
    · obtain ⟨t₁, hstep, hchain, htotal, hall⟩ := resolve_chain_step (t := t) perPuyo hc
      obtain ⟨g, hg⟩ := exists_mem_of_ne_nil _ hc
      have hfour := (length_clearable g hg).trans (sublist_flatten_of_mem hg).length_le
      have hsum := amount_gone (fun c => mem_clearable) (nodup_clearable (b := _settle b))
      obtain ⟨c, hin⟩ := exists_mem_of_length_pos (Nat.lt_of_lt_of_le (by decide) hfour)
      have hgoes := mem_clearable.mp hin
      have hfull : blocks_left b ≠ 0 := by
        rw [← hblocks]
        exact Finset.card_ne_zero_of_mem (a := c) (by simp [hgoes.1])
      obtain ⟨e, t', k, hrun, hcascade, hset, hnone, hk, hrest, hend⟩ := ih (after (_settle b)) t₁ (by omega) (by simp_all)
      exact ⟨e, t', k + 1, (hstep n).trans hrun, .step hs hgoes hcascade, hset, hnone, by omega, hrest, by omega⟩

/-- A chain is the cascade of its board. It ends on a settled board where nothing goes. -/
theorem resolve_chain_cascade (perPuyo : ℕ) (b : Board) : ∃ e t, _resolve_chain perPuyo MAX_CHAIN_STEPS b {} = .ok (e, t) ∧
    Cascade t.chain b e ∧ Settled e ∧ (∀ c, ¬Goes e c) ∧ (t.all_clear ↔ 0 < t.chain ∧ blocks_left e = 0) ∧
    t.total_blocks + amount colored e = amount colored b := by
  obtain ⟨e, t, k, hrun, hcascade, hset, hnone, hk, hall, htotal⟩ := cascade_of_lt perPuyo MAX_CHAIN_STEPS b {}
    ((Finset.card_le_univ _).trans_lt (by decide)) (by simp)
  refine ⟨e, t, hrun, ?_, hset, hnone, hall, by simpa using htotal⟩
  rwa [hk, Nat.zero_add]

end Docich.Puyo
