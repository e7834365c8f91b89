import Docich.Explore
import Mathlib

/-!
# The board

- `_settle`: the cells of every column fall;
- `connected_groups`: a flood fill from every cell that was not seen yet;
- `connected_groups_spec`: its groups are the connected components of equal colour;
- `drop_ojama_spec`: the ojama fill the first empty cells from below.
-/

namespace Docich.Puyo

open List Relation
open Explore (explore Reach explore_seed mem_explore)

abbrev BOARD_COLS : ℕ := 6
abbrev BOARD_ROWS : ℕ := 12
def OJAMA_COLOR : String := "ojama"

/-- Column and row, `(x, y)` for `board[y][x]`; row `0` is the top. -/
abbrev Cell := Fin BOARD_COLS × Fin BOARD_ROWS

instance lawful_cell : LawfulBEq Cell := inferInstance

abbrev Board := Cell → Option String

def blocks_left (b : Board) : ℕ := (Finset.univ.filter fun c => (b c).isSome).card

/-! ## Falling -/

def column (b : Board) (x : Fin BOARD_COLS) : List String := (finRange BOARD_ROWS).filterMap fun y => b (x, y)

def _settle (b : Board) : Board := fun (x, y) =>
  let kept := column b x
  let pad := BOARD_ROWS - kept.length
  if y < pad then none else kept[y - pad]?

/-- No empty cell is below an occupied one. -/
def Settled (b : Board) : Prop := ∀ x y y', y ≤ y' → (b (x, y)).isSome → (b (x, y')).isSome

def Fallen (b s : Board) : Prop := (∀ x, column s x = column b x) ∧ Settled s

variable {b s : Board} {c d e : Cell} {color : String}

theorem filterMap_pad {n : ℕ} (kept : List String) (hn : kept.length ≤ n) :
    ((finRange n).filterMap fun y : Fin n => if y < n - kept.length then none else kept[y - (n - kept.length)]?) = kept := by
  have hcells : (finRange n).map (fun y : Fin n => if y < n - kept.length then none else kept[y - (n - kept.length)]?) =
      replicate (n - kept.length) none ++ kept.map some := by
    refine ext_getElem (by simp; omega) fun i _ hi => ?_
    simp only [getElem_map, getElem_finRange, Fin.val_cast, getElem_append, length_replicate, getElem_replicate]
    split_ifs
    · rfl
    · exact getElem?_eq_getElem _
  simpa [Function.comp_def] using congrArg (filterMap id) hcells

theorem fallen_settle (b : Board) : Fallen b (_settle b) := by
  have hlen (x : Fin BOARD_COLS) : (column b x).length ≤ BOARD_ROWS :=
    (length_filterMap_le ..).trans_eq (length_finRange ..)
  refine ⟨fun x => filterMap_pad (column b x) (hlen x), fun x y y' hle hy => ?_⟩
  unfold _settle at hy ⊢
  have hx := hlen x
  have hle := Fin.le_def.mp hle
  dsimp only at hy ⊢
  split_ifs at hy with hpad
  · cases hy
  · rw [if_neg (by omega), isSome_getElem?]
    omega

/-! ## Groups -/

/-- The cells to the right, to the left, below and above, on the board. -/
def beside (c : Cell) : List Cell :=
  (if h : c.1.val + 1 < BOARD_COLS then [(⟨c.1 + 1, h⟩, c.2)] else []) ++
  (if 0 < c.1.val then [(⟨c.1 - 1, by omega⟩, c.2)] else []) ++
  (if h : c.2.val + 1 < BOARD_ROWS then [(c.1, ⟨c.2 + 1, h⟩)] else []) ++
  (if 0 < c.2.val then [(c.1, ⟨c.2 - 1, by omega⟩)] else [])

def cells : List Cell := (finRange BOARD_ROWS).flatMap fun y => (finRange BOARD_COLS).map fun x => (x, y)

def spread (b : Board) (color : String) (c : Cell) : List Cell := (beside c).filter fun d => b d = some color

/-- One cell of the scan, after those that were seen and the groups found. -/
def scan (b : Board) (acc : List Cell × List (List Cell)) (c : Cell) : List Cell × List (List Cell) :=
  match b c with
  | none => acc
  | some color =>
    if c ∈ acc.1 then acc
    else
      let filled := explore (spread b color) (Fintype.card Cell) (acc.1 ++ [c]) [c] [c]
      (filled.1, acc.2 ++ [filled.2])

def connected_groups (b : Board) : List (List Cell) := (cells.foldl (scan b) ([], [])).2

def Adjacent (c d : Cell) : Prop :=
  c.2 = d.2 ∧ (c.1.val + 1 = d.1 ∨ d.1.val + 1 = c.1) ∨ c.1 = d.1 ∧ (c.2.val + 1 = d.2 ∨ d.2.val + 1 = c.2)

/-- A path of adjacent cells of one colour. -/
def Joined (b : Board) : Cell → Cell → Prop := ReflTransGen fun c d => Adjacent c d ∧ b c = b d

theorem mem_beside : d ∈ beside c ↔ Adjacent c d := by
  have hx := d.1.isLt
  have hy := d.2.isLt
  unfold beside Adjacent
  split_ifs <;> simp [Prod.ext_iff, Fin.ext_iff] <;> omega

theorem nodup_beside : ∀ c, (beside c).Nodup := by decide

theorem Adjacent.symm (h : Adjacent c d) : Adjacent d c := by
  unfold Adjacent at *
  omega

theorem Joined.symm (h : Joined b c d) : Joined b d c := by
  induction h with
  | refl => exact .refl
  | tail _ h ih => exact .head ⟨h.1.symm, h.2.symm⟩ ih

theorem Joined.same (h : Joined b c d) : b c = b d := by
  induction h with
  | refl => rfl
  | tail _ h ih => exact ih.trans h.2

theorem reach_spread (hc : b c = some color) : Reach (spread b color) c d ↔ Joined b c d := by
  have hstep {d e : Cell} (hd : b d = some color) : e ∈ spread b color d ↔ Adjacent d e ∧ b d = b e := by
    simp [spread, mem_beside, hd, eq_comm]
  refine ⟨fun h => ?_, fun h => ?_⟩
  · induction h with
    | refl => exact .refl
    | tail _ h ih => exact ih.tail ((hstep (ih.same ▸ hc)).mp h)
  · induction h with
    | refl => exact .refl
    | tail hcd h ih => exact ih.tail ((hstep ((Joined.same hcd) ▸ hc)).mpr h)

/-- What holds of the cells seen and the groups found after the cells `l`. -/
structure Scanned (b : Board) (l : List Cell) (acc : List Cell × List (List Cell)) : Prop where
  seen : acc.1 = acc.2.flatten
  nodup : acc.1.Nodup
  occupied : ∀ c ∈ acc.1, (b c).isSome
  all : ∀ c ∈ l, (b c).isSome → c ∈ acc.1
  group : ∀ g ∈ acc.2, ∀ c ∈ g, ∀ d, d ∈ g ↔ Joined b c d
  nonempty : [] ∉ acc.2

theorem Scanned.scan {l : List Cell} {acc : List Cell × List (List Cell)} (h : Scanned b l acc) (c : Cell) :
    Scanned b (l ++ [c]) (scan b acc c) := by
  have hsame (hc : (b c).isSome → c ∈ acc.1) : Scanned b (l ++ [c]) acc :=
    { h with all := forall_mem_append.mpr ⟨h.all, forall_mem_singleton.mpr hc⟩ }
  unfold Puyo.scan
  split
  · next hc => exact hsame (by simp [hc])
  · next color hc =>
    split_ifs with hin
    · exact hsame fun _ => hin
    -- nothing that is joined to the cell was seen
    have hfresh : ∀ d, Reach (spread b color) c d → d ∉ acc.1 := by
      intro d hd hseen
      rw [h.seen] at hseen hin
      obtain ⟨g, hg, hdg⟩ := mem_flatten.mp hseen
      exact hin (mem_flatten.mpr ⟨g, hg, (h.group g hg d hdg c).mpr ((reach_spread hc).mp hd).symm⟩)
    have hnext (v : Cell) : (spread b color v).Nodup := (nodup_beside v).filter _
    have hi := explore_seed hnext h.nodup hfresh
    have hmem (v : Cell) := (mem_explore (v := v) hnext h.nodup hfresh).trans (reach_spread hc)
    have hcolor {v : Cell} (hv : Joined b c v) : b v = some color := hv.same ▸ hc
    refine ⟨?_, hi.nodup, ?_, ?_, ?_, ?_⟩
    · exact hi.seen_eq.trans (by simp [← h.seen])
    · rw [hi.seen_eq]
      refine forall_mem_append.mpr ⟨h.occupied, fun v hv => ?_⟩
      simp [hcolor ((hmem v).mp hv)]
    · rw [hi.seen_eq]
      refine forall_mem_append.mpr ⟨fun v hv ho => mem_append_left _ (h.all v hv ho), forall_mem_singleton.mpr fun _ => ?_⟩
      exact mem_append_right _ hi.start
    · refine forall_mem_append.mpr ⟨h.group, forall_mem_singleton.mpr fun v hv d => (hmem d).trans ?_⟩
      have hv := (hmem v).mp hv
      exact ⟨fun hd => hv.symm.trans hd, fun hd => hv.trans hd⟩
    · simp only [mem_append, mem_singleton, not_or]
      exact ⟨h.nonempty, (ne_nil_of_mem hi.start).symm⟩

theorem scanned (b : Board) (l : List Cell) : Scanned b l (l.foldl (scan b) ([], [])) := by
  induction l using reverseRecOn with
  | nil => exact ⟨rfl, nodup_nil, by simp, by simp, by simp, by simp⟩
  | append_singleton l c ih =>
    rw [foldl_concat]
    exact ih.scan c

theorem nodup_groups : (connected_groups b).flatten.Nodup := (scanned b cells).seen ▸ (scanned b cells).nodup

theorem mem_groups : c ∈ (connected_groups b).flatten ↔ (b c).isSome := by
  have h := scanned b cells
  rw [connected_groups, ← h.seen]
  exact ⟨h.occupied c, h.all c (by simp [cells])⟩

/-- The groups are the components of one colour, and every occupied cell is in one of them. -/
theorem connected_groups_spec (b : Board) : (connected_groups b).flatten.Nodup ∧
    (∀ c, c ∈ (connected_groups b).flatten ↔ (b c).isSome) ∧ [] ∉ connected_groups b ∧
    ∀ g ∈ connected_groups b, ∀ c ∈ g, ∀ d, d ∈ g ↔ Joined b c d :=
  ⟨nodup_groups, fun _ => mem_groups, (scanned b cells).nonempty, (scanned b cells).group⟩

/-! ## Ojama -/

/-- The bottom row first, from left to right. -/
def drop_order : List Cell := (finRange BOARD_ROWS).reverse.flatMap fun y => (finRange BOARD_COLS).map fun x => (x, y)

def drop_next (quota : ℕ) (acc : Board × ℕ) (c : Cell) : Board × ℕ :=
  if acc.2 < quota ∧ acc.1 c = none then (Function.update acc.1 c (some OJAMA_COLOR), acc.2 + 1) else acc

def drop_ojama (b : Board) (count max_drop : ℕ) : Board × ℕ := drop_order.foldl (drop_next (min count max_drop)) (b, 0)

/-- The first empty cells of a list. -/
def places (b : Board) (quota : ℕ) (l : List Cell) : List Cell := (l.filter fun c => b c = none).take quota

def fill (b : Board) (l : List Cell) : Board := fun c => if c ∈ l then some OJAMA_COLOR else b c

theorem fill_concat (l : List Cell) : fill b (l ++ [c]) = Function.update (fill b l) c (some OJAMA_COLOR) := by
  funext d
  by_cases hd : d = c <;> simp [fill, hd]

theorem drop_places (b : Board) (quota : ℕ) {l : List Cell} (hn : l.Nodup) :
    l.foldl (drop_next quota) (b, 0) = (fill b (places b quota l), (places b quota l).length) := by
  induction l using reverseRecOn with
  | nil => simp [places, fill, funext_iff]
  | append_singleton l c ih =>
    have hout : c ∉ places b quota l := fun hc =>
      (nodup_append.mp hn).2.2 c (mem_of_mem_filter (mem_of_mem_take hc)) c (mem_singleton_self c) rfl
    have hsame : fill b (places b quota l) c = b c := if_neg hout
    rw [foldl_concat, ih (nodup_append.mp hn).1]
    simp only [drop_next, hsame]
    obtain hq | hq := lt_or_ge (l.filter fun c => b c = none).length quota
    · have hlast : [c].take (quota - (l.filter fun c => b c = none).length) = [c] := take_of_length_le (by simp; omega)
      by_cases hc : b c = none <;> simp [places, take_append, hc, hq, hlast, fill_concat]
    · by_cases hc : b c = none <;> simp [places, take_append, hc, hq]

/-- The ojama go to the first empty cells, and a settled board stays settled. -/
theorem drop_ojama_spec (b : Board) (count max_drop : ℕ) :
    drop_ojama b count max_drop = (fill b (places b (min count max_drop) drop_order),
      min (min count max_drop) (drop_order.countP fun c => b c = none)) ∧
    (Settled b → Settled (drop_ojama b count max_drop).1) := by
  have hrun : drop_ojama b count max_drop = (_, _) := drop_places b (min count max_drop) (by decide)
  have horder : drop_order.Pairwise fun c d => d.2 ≤ c.2 ∧ c ≠ d := by decide
  rw [hrun]
  generalize min count max_drop = quota
  refine ⟨by simp [places, countP_eq_length_filter], fun hs x y y' hle hy => ?_⟩
  by_cases hnew : (x, y) ∈ places b quota drop_order ∧ b (x, y') = none
  · have hall : (x, y') ∈ drop_order.filter fun c => b c = none := by simp [drop_order, hnew.2]
    have hpair := horder.filter fun c => b c = none
    rw [← take_append_drop quota (drop_order.filter _)] at hall hpair
    -- an empty cell below another one comes first
    have hin : (x, y') ∈ places b quota drop_order := (mem_append.mp hall).resolve_right fun hrest => by
      obtain ⟨hback, hne⟩ := (pairwise_append.mp hpair).2.2 _ hnew.1 _ hrest
      exact hne (by rw [le_antisymm hle hback])
    simp [fill, hin]
  · have hbelow := hs x y y' hle
    simp only [fill] at hy ⊢
    split_ifs at hy ⊢ <;> simp_all [Option.isSome_iff_ne_none]

end Docich.Puyo
