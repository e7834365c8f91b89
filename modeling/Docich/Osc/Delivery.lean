import Docich.Osc.Spool

/-!
# What the spool delivers

- `Ordered`: the lines of the file stand in the order of their calls;
- `Sound`: what stands behind the offset of the reader is newer than what it returned (`sound_step`);
- `Untrimmed`: the file and the reader while the file was never trimmed;
- `delivery_iff`: the records are returned in order and at most once, and none of the old ones, exactly when no reader
  that starts again finds a line that it passed.
-/

namespace Docich.Osc.Spool

open List Option

open Wire (Json loads)

/-! ## Lines -/

theorem split_ne_nil (f : List Cell) : split f ≠ [] := by
  cases f with
  | nil => exact cons_ne_nil _ _
  | cons c f =>
    cases c with
    | newline => exact cons_ne_nil _ _
    | byte b call =>
      rw [split]
      split <;> exact cons_ne_nil _ _
      exact nofun

/-- A byte belongs to the first line. -/
theorem split_byte (b call : ℕ) (f : List Cell) :
    ∃ line lines, split f = line :: lines ∧ split (.byte b call :: f) = (.byte b call :: line) :: lines := by
  obtain ⟨line, lines, h⟩ := exists_cons_of_ne_nil (split_ne_nil f)
  refine ⟨line, lines, h, ?_⟩
  rw [split, h]
  exact nofun

variable {line f : List Cell}

theorem split_line (hline : .newline ∉ line) (rest : List Cell) :
    split (line ++ .newline :: rest) = line :: split rest := by
  induction line with
  | nil => rfl
  | cons c line ih =>
    rw [mem_cons, not_or] at hline
    cases c with
    | newline => exact absurd rfl hline.1
    | byte b call =>
      obtain ⟨first, lines, hsplit, hcons⟩ := split_byte b call (line ++ .newline :: rest)
      rw [ih hline.2] at hsplit
      cases hsplit
      exact hcons

/-- The lines with their ends. -/
def join (lines : List (List Cell)) : List Cell := lines.flatMap (· ++ [.newline])

theorem join_split (f : List Cell) : join (split f).dropLast ++ (split f).getLastD [] = f := by
  induction f with
  | nil => rfl
  | cons c f ih =>
    cases c with
    | newline =>
      obtain ⟨line, lines, h⟩ := exists_cons_of_ne_nil (split_ne_nil f)
      rw [h] at ih
      rw [split, h, dropLast_cons_cons, join, flatMap_cons, ← join]
      simpa using ih
    | byte b call =>
      obtain ⟨line, lines, h, hcons⟩ := split_byte b call f
      rw [h] at ih
      rw [hcons]
      cases lines with
      | nil => simpa [join] using ih
      | cons line' lines =>
        rw [dropLast_cons_cons, join, flatMap_cons, ← join] at ih ⊢
        simpa using ih

theorem newline_notMem_split (h : line ∈ split f) : .newline ∉ line := by
  induction f generalizing line with
  | nil =>
    rw [split, mem_singleton] at h
    rw [h]
    exact nofun
  | cons c f ih =>
    cases c with
    | newline =>
      rcases mem_cons.mp h with rfl | h
      · exact nofun
      · exact ih h
    | byte b call =>
      obtain ⟨first, lines, hsplit, hcons⟩ := split_byte b call f
      rw [hcons] at h
      rcases mem_cons.mp h with rfl | h
      · have := ih (hsplit ▸ mem_cons_self)
        simpa using this
      · exact ih (hsplit ▸ mem_cons_of_mem _ h)

/-- After a line end nothing stands behind the last line. -/
theorem split_ended (h : f.getLast? = some .newline) : split f = (split f).dropLast ++ [[]] := by
  have hne := split_ne_nil f
  have hlast : (split f).getLast hne = [] := by
    by_contra hlast
    have hmem : (split f).getLast hne ∈ split f := getLast_mem hne
    have hjoin := join_split f
    rw [getLastD_eq_getLast?, List.getLast?_eq_getLast_of_ne_nil hne, getD_some] at hjoin
    rw [← hjoin, List.getLast?_append, List.getLast?_eq_getLast_of_ne_nil hlast, some_or] at h
    have := getLast_mem hlast
    rw [some.inj h] at this
    exact newline_notMem_split hmem this
  conv_lhs => rw [← dropLast_append_getLast hne, hlast]

theorem join_ended (h : f.getLast? = some .newline) : join (split f).dropLast = f := by
  have hjoin := join_split f
  rw [split_ended h] at hjoin
  simpa using hjoin

variable {α : Type} {n call max_line : ℕ} {bytes : List ℕ} {e : Event} {chunk : List Cell}
    {w : World}

theorem lastOf_suffix (n : ℕ) (l : List α) : lastOf n l <:+ l := drop_suffix _ _

theorem lastOf_getLast? (hn : 0 < n) (l : List α) : (lastOf n l).getLast? = l.getLast? := by
  unfold lastOf
  cases l with
  | nil => simp
  | cons a l =>
    rw [List.getLast?_drop, if_neg]
    simp only [length_cons]
    omega

/-- A trim leaves out cells of the file, and nothing else. -/
theorem trimJsonl_sublist (max_bytes : ℤ) (h : f.getLast? = some .newline) :
    (trimJsonl max_bytes f).Sublist f ∧ (trimJsonl max_bytes f).getLast? = some .newline := by
  unfold trimJsonl
  split
  · exact ⟨Sublist.refl f, h⟩
  · refine ⟨?_, by simp⟩
    dsimp only
    set tail := lastOf TRIM_BYTES f with htail
    have hended : tail.getLast? = some .newline := by rw [htail, lastOf_getLast? (by decide), h]
    set kept := (lastOf JSONL_KEEP_LINES (split tail)).filter fun line => line ≠ [] with hkept
    refine Sublist.trans ?_ (lastOf_suffix TRIM_BYTES f).sublist
    rw [← htail]
    cases hcase : kept with
    | nil => simpa using mem_of_getLast? hended
    | cons line lines =>
      have hjoin : [.newline].intercalate (line :: lines) ++ [.newline] = join (line :: lines) := by
        clear hcase
        induction lines generalizing line with
        | nil => simp [join, List.intercalate]
        | cons line' lines ih =>
          rw [join, flatMap_cons, ← join, ← ih line']
          simp [List.intercalate]
      have hsub : (line :: lines).Sublist (split tail).dropLast := by
        rw [← hcase]
        have hfilter : kept.Sublist ((split tail).filter fun line => line ≠ []) :=
          (lastOf_suffix JSONL_KEEP_LINES (split tail)).sublist.filter _
        rw [split_ended hended, filter_append] at hfilter
        simp only [ne_eq, decide_not, filter_cons_of_neg, decide_true, Bool.not_true, Bool.false_eq_true, not_false_eq_true,
          filter_nil, append_nil] at hfilter
        exact hfilter.trans filter_sublist
      rw [hjoin]
      conv_rhs => rw [← join_ended hended]
      exact hsub.flatMap _

/-! ## The order of the lines -/

/-- A byte behind a line end is of a later call, unless both were there before. -/
def Ordered (f : List Cell) : Prop :=
  ∀ u a v b, [Cell.byte u a, .newline, .byte v b].Sublist f → a < b ∨ b = 0

theorem Ordered.sublist {g : List Cell} (h : Ordered g) (hsub : f.Sublist g) : Ordered f :=
  fun u a v b hs => h u a v b (hs.trans hsub)

/-- No call is later than this one. -/
def Bounded (n : ℕ) (f : List Cell) : Prop := ∀ u a, .byte u a ∈ f → a ≤ n

theorem cells_append (call : ℕ) (s t : List ℕ) : cells call (s ++ t) = cells call s ++ cells call t := map_append

theorem byte_mem_cells {u a : ℕ} (h : .byte u a ∈ cells call bytes) : a = call := by
  obtain ⟨b, -, hb⟩ := mem_map.mp h
  split at hb
  · cases hb
  · cases hb
    rfl

theorem newline_mem_cells (h : Cell.newline ∈ cells call bytes) : 10 ∈ bytes := by
  obtain ⟨b, hmem, hb⟩ := mem_map.mp h
  split at hb
  · next h10 => rwa [← h10]
  · cases hb

theorem ten_notMem_lineOf (record : Record) : 10 ∉ lineOf record := by
  intro h
  have hmem := Wire.Utf8.mem_encode h (by decide)
  have hvisible : Wire.Visible ((Json.object record.1).dumps separators) :=
    Wire.visible_dumps (by decide) (by decide) _ record.2
  exact absurd (hvisible _ hmem) (by decide)

/-- What a call writes is one line. -/
theorem cells_payload (call : ℕ) (record : Record) :
    cells call (payload record) = cells call (lineOf record) ++ [.newline] := by
  rw [payload, cells_append]
  rfl

theorem newline_notMem_line (call : ℕ) (record : Record) : .newline ∉ cells call (lineOf record) :=
  fun h => ten_notMem_lineOf record (newline_mem_cells h)

theorem Bounded.append (h : Bounded n f) (bytes : List ℕ) : Bounded (n + 1) (f ++ cells (n + 1) bytes) := by
  intro u a hmem
  rcases mem_append.mp hmem with hmem | hmem
  · exact (h u a hmem).trans (Nat.le_succ n)
  · exact (byte_mem_cells hmem).le

theorem Ordered.append (h : Ordered f) (hbound : Bounded n f) (record : Record) :
    Ordered (f ++ cells (n + 1) (payload record)) := by
  intro u a v b hsub
  obtain ⟨l₁, l₂, heq, h₁, h₂⟩ := sublist_append_iff.mp hsub
  -- a byte cannot stand behind the only line end of what was written
  have hlast : ¬ [.newline, .byte v b].Sublist (cells (n + 1) (payload record)) := by
    rw [cells_payload]
    intro hsub
    obtain ⟨m₁, m₂, heq, hm₁, hm₂⟩ := sublist_append_iff.mp hsub
    match m₁, heq with
    | [], heq =>
      rw [nil_append] at heq
      rw [← heq] at hm₂
      exact absurd hm₂.length_le (by simp)
    | c :: m₁, heq =>
      rw [← (List.cons.inj heq).1] at hm₁
      exact newline_notMem_line _ record (hm₁.subset mem_cons_self)
  match l₁, heq with
  | [], heq =>
    rw [nil_append] at heq
    rw [← heq] at h₂
    exact absurd (Sublist.trans (sublist_cons_self _ _) h₂) hlast
  | [x], heq =>
    cases heq
    exact absurd h₂ hlast
  | [x, y], heq =>
    cases heq
    have ha := hbound u a (h₁.subset mem_cons_self)
    have hb := byte_mem_cells (h₂.subset mem_cons_self)
    exact .inl (by omega)
  | [x, y, z], heq =>
    cases heq
    exact h u a v b h₁
  | x :: y :: z :: w :: m, heq =>
    simp at heq

/-! ## Events -/

theorem mem_split_tail {c : Cell} (h : line ∈ (split f).tail) (hc : c ∈ line) : [Cell.newline, c].Sublist f := by
  induction f with
  | nil => cases h
  | cons d f ih =>
    cases d with
    | newline =>
      have hline : line ∈ split f := h
      refine Sublist.cons_cons _ (singleton_sublist.mpr ?_)
      have hjoin := join_split f
      have hparts : line ∈ (split f).dropLast ∨ line = (split f).getLastD [] := by
        rw [← dropLast_append_getLast (split_ne_nil f)] at hline
        rw [getLastD_eq_getLast?, List.getLast?_eq_getLast_of_ne_nil (split_ne_nil f), getD_some]
        simpa using hline
      rw [← hjoin, mem_append]
      rcases hparts with hline | rfl
      · exact .inl (mem_flatMap.mpr ⟨line, hline, mem_append_left _ hc⟩)
      · exact .inr hc
    | byte b call =>
      obtain ⟨first, lines, hsplit, hcons⟩ := split_byte b call f
      rw [hcons, tail_cons] at h
      exact (ih (by rw [hsplit]; exact h)).cons _

/-- The cells of a line and of a later one stand apart by a line end. -/
theorem split_pairwise (f : List Cell) :
    (split f).Pairwise fun l l' => ∀ c ∈ l, ∀ d ∈ l', [c, .newline, d].Sublist f := by
  induction f with
  | nil => exact pairwise_singleton _ _
  | cons d f ih =>
    cases d with
    | newline =>
      rw [split, pairwise_cons]
      exact ⟨fun _ _ c hc => absurd hc not_mem_nil, ih.imp fun h c hc d hd => (h c hc d hd).cons _⟩
    | byte b call =>
      obtain ⟨first, lines, hsplit, hcons⟩ := split_byte b call f
      rw [hsplit, pairwise_cons] at ih
      rw [hcons, pairwise_cons]
      refine ⟨fun l' hl' c hc d hd => ?_, ih.2.imp fun h c hc d hd => (h c hc d hd).cons _⟩
      rcases mem_cons.mp hc with rfl | hc
      · exact Sublist.cons_cons _ (mem_split_tail (by rw [hsplit]; exact hl') hd)
      · exact (ih.1 l' hl' c hc d hd).cons _

theorem eventOf_some (h : eventOf max_line line = some e) :
    e.1 = callOf line ∧ line ≠ [] := by
  unfold eventOf at h
  split at h
  · cases h
  · next hblank =>
    split at h
    · cases h
    · split at h
      · cases h
        refine ⟨rfl, ?_⟩
        rintro rfl
        exact hblank rfl
      · cases h

/-- The first cell of a line without line ends. -/
theorem callOf_mem (hne : line ≠ []) (hline : .newline ∉ line) : ∃ u, .byte u (callOf line) ∈ line := by
  match line with
  | [] => exact absurd rfl hne
  | .newline :: _ => exact absurd mem_cons_self hline
  | .byte u call :: rest => exact ⟨u, mem_cons_self⟩

/-- An event is of a call that wrote into the chunk. -/
theorem mem_eventsOf (h : e ∈ (eventsOf max_line chunk).1) :
    ∃ u, .byte u e.1 ∈ chunk := by
  obtain ⟨line, hline, he⟩ := mem_filterMap.mp h
  obtain ⟨hcall, hne⟩ := eventOf_some he
  obtain ⟨u, hu⟩ := callOf_mem hne (newline_notMem_split ((dropLast_sublist _).subset hline))
  refine ⟨u, ?_⟩
  rw [hcall, ← join_split chunk, mem_append]
  exact .inl (mem_flatMap.mpr ⟨line, hline, mem_append_left _ hu⟩)

/-- Events that are not old come in the order of their calls. -/
theorem eventsOf_pairwise (max_line : ℕ) (hordered : Ordered chunk)
    (hnew : ∀ e ∈ (eventsOf max_line chunk).1, 0 < e.1) :
    ((eventsOf max_line chunk).1).Pairwise fun e e' => e.1 < e'.1 := by
  have hlines := (split_pairwise chunk).sublist (dropLast_sublist _)
  have hmem : ∀ line ∈ (split chunk).dropLast, line ∈ split chunk := fun line h => (dropLast_sublist _).subset h
  refine Pairwise.filterMap _ ?_ (hlines.imp_of_mem (S := fun l l' => .newline ∉ l ∧ .newline ∉ l' ∧
    (l' ∈ (split chunk).dropLast) ∧ ∀ c ∈ l, ∀ d ∈ l', [c, .newline, d].Sublist chunk) ?_)
  · rintro l l' ⟨hl, hl', hin, hsub⟩ e he e' he'
    obtain ⟨hcall, hne⟩ := eventOf_some he
    obtain ⟨hcall', hne'⟩ := eventOf_some he'
    obtain ⟨u, hu⟩ := callOf_mem hne hl
    obtain ⟨v, hv⟩ := callOf_mem hne' hl'
    have hpos := hnew e' (mem_filterMap.mpr ⟨l', hin, he'⟩)
    rcases hordered u _ v _ (hsub _ hu _ hv) with hlt | hzero
    · rwa [hcall, hcall']
    · omega
  · intro l l' hl hl' hsub
    exact ⟨newline_notMem_split (hmem l hl), newline_notMem_split (hmem l' hl'), hl', hsub⟩

/-! ## The invariant -/

/-- Where the next read begins, unless the file is shorter. -/
def Tail.position (t : Tail) : ℕ := if t.opened then t.offset else t.initial_size

/-- A cell of a call that is newer than everything that was returned. -/
def Fresh (w : World) (c : Cell) : Prop := ∀ u a, c = .byte u a → 0 < a ∧ ∀ e ∈ w.returned, e.1 < a

structure Sound (w : World) : Prop where
  bounded : Bounded w.appended.length (w.file.getD [])
  ordered : Ordered (w.file.getD [])
  ended : (w.file.getD []).getLast? = some .newline ∨ (w.file.getD []).length = w.tail.position
  missing : w.file = none → w.tail.opened = false
  skips : w.tail.skip_existing = true
  closed : w.tail.opened = false → w.tail.offset = 0
  buffer : w.tail.buffer = []
  fresh : ∀ c ∈ (w.file.getD []).drop w.tail.position, Fresh w c
  passed : ∀ e ∈ w.returned, e.1 ≤ w.appended.length

theorem sound_start (existing : Option (List ℕ)) (max_line : ℕ) : Sound (start existing max_line) := by
  have hposition : (start existing max_line).tail.position = ((start existing max_line).file.getD []).length := rfl
  have hcells : ∀ u a, .byte u a ∈ (start existing max_line).file.getD [] → a = 0 := by
    intro u a h
    cases existing with
    | none => cases h
    | some bytes => exact byte_mem_cells h
  exact {
    bounded := fun u a h => (hcells u a h).le
    ordered := fun u a v b h => .inr (hcells v b (h.subset (by simp)))
    ended := .inr hposition.symm
    missing := fun _ => rfl
    skips := rfl
    closed := fun _ => rfl
    buffer := rfl
    fresh := by
      rw [hposition, drop_length]
      exact nofun
    passed := nofun }

/-- An append writes a line at the end and leaves cells out before it. -/
theorem appendJsonl_some {record : Record} {max_bytes : ℤ} {file : Option (List Cell)}
    (h : appendJsonl call record max_bytes file = some f) :
    f = trimJsonl max_bytes (file.getD [] ++ cells call (payload record)) ∧
      f.Sublist (file.getD [] ++ cells call (payload record)) ∧ f.getLast? = some .newline := by
  unfold appendJsonl at h
  split at h
  · cases h
  · cases h
    have hended : (file.getD [] ++ cells call (payload record)).getLast? = some .newline := by
      rw [cells_payload, ← append_assoc, List.getLast?_append]
      rfl
    exact ⟨rfl, trimJsonl_sublist max_bytes hended⟩

theorem sound_append (h : Sound w) (record : Record) (max_bytes : ℤ) : Sound (step w (.append record max_bytes)) := by
  simp only [step]
  cases happend : appendJsonl (w.appended.length + 1) record max_bytes w.file with
  | none => exact h
  | some f =>
    obtain ⟨-, hsub, hlast⟩ := appendJsonl_some happend
    have hlength : (w.appended ++ [record]).length = w.appended.length + 1 := by simp
    exact {
      bounded := by
        intro u a hmem
        rw [hlength]
        exact h.bounded.append _ u a (hsub.subset hmem)
      ordered := (h.ordered.append h.bounded record).sublist hsub
      ended := .inl hlast
      missing := nofun
      skips := h.skips
      closed := h.closed
      buffer := h.buffer
      fresh := by
        intro c hc u a hbyte
        have hdrop := (hsub.drop w.tail.position).subset hc
        rw [drop_append, mem_append] at hdrop
        rcases hdrop with hold | hnew
        · exact h.fresh c hold u a hbyte
        · rw [hbyte] at hnew
          have ha := byte_mem_cells (mem_of_mem_drop hnew)
          exact ⟨by omega, fun e he => by have := h.passed e he; omega⟩
      passed := by
        intro e he
        rw [hlength]
        exact (h.passed e he).trans (Nat.le_succ _) }

/-- The events that a read returns: those of the whole file when the reader starts again, else those behind its position. -/
def newEvents (w : World) : List Event :=
  match w.file with
  | none => []
  | some f =>
    if f.length < w.tail.offset then (eventsOf w.tail.max_line f).1
    else (eventsOf w.tail.max_line (f.drop w.tail.position)).1

theorem eventsOf_rest (h : chunk.getLast? = some .newline) :
    eventsOf max_line chunk = ((eventsOf max_line chunk).1, []) := by
  simp only [eventsOf, Prod.mk.injEq, true_and]
  rw [split_ended h]
  simp

/-- What a read leaves of the reader. -/
structure Kept (w : World) (t : Tail) : Prop where
  skips : t.skip_existing = true
  closed : t.opened = false → t.offset = 0
  buffer : t.buffer = []
  max_line : t.max_line = w.tail.max_line
  initial_size : t.initial_size = w.tail.initial_size
  behind : (w.file.getD []).length ≤ t.position
  level : w.tail.position ≤ (w.file.getD []).length → (w.file.getD []).length = t.position
  missing : w.file = none → t.opened = false

/-- The end of a read, from an offset that the file reaches. -/
theorem read_open {t : Tail} (hbuffer : t.buffer = [])
    (hended : f.getLast? = some .newline ∨ f.length = t.offset) (hlonger : t.offset ≤ f.length) :
    (if f.length ≤ t.offset then (t, []) else let chunk := f.drop t.offset
        let (events, buffer) := eventsOf t.max_line (t.buffer ++ chunk)
        ({ t with offset := t.offset + chunk.length, buffer := if t.max_line < buffer.length then [] else buffer }, events)) =
      ({ t with offset := f.length }, (eventsOf t.max_line (f.drop t.offset)).1) := by
  by_cases hle : f.length ≤ t.offset
  · have heq : t.offset = f.length := le_antisymm hlonger hle
    rw [if_pos hle, heq, drop_length]
    simp [eventsOf, split, ← heq]
  · rw [if_neg hle]
    have hlast : f.getLast? = some .newline := hended.resolve_right (by omega)
    have hchunk : (f.drop t.offset).getLast? = some .newline := by rw [List.getLast?_drop, if_neg hle, hlast]
    simp only [hbuffer, nil_append]
    rw [eventsOf_rest hchunk]
    simp only [length_nil, Nat.not_lt_zero, if_false, length_drop]
    rw [Nat.add_sub_cancel' hlonger]

theorem Sound.read (h : Sound w) : ∃ t, w.tail.read w.file = (t, newEvents w) ∧ Kept w t := by
  cases hfile : w.file with
  | none =>
    have hended := h.ended
    rw [hfile] at hended
    have hposition : 0 = w.tail.position := hended.resolve_left nofun
    have hinitial : w.tail.position = w.tail.initial_size := by simp [Tail.position, h.missing hfile]
    refine ⟨{ w.tail with opened := false, offset := 0, buffer := [] }, by rw [newEvents, hfile]; rfl, ?_⟩
    exact {
      skips := h.skips
      closed := fun _ => rfl
      buffer := rfl
      max_line := rfl
      initial_size := rfl
      behind := by rw [hfile]; exact Nat.zero_le _
      level := fun _ => by rw [hfile]; exact hposition.trans hinitial
      missing := fun _ => rfl }
  | some f =>
    have hended := h.ended
    simp only [hfile, getD_some] at hended
    by_cases hshort : f.length < w.tail.offset
    · have hopened : w.tail.opened = true := by
        by_contra hclosed
        have := h.closed (by simpa using hclosed)
        omega
      have hposition : w.tail.position = w.tail.offset := by simp [Tail.position, hopened]
      have hlast : f.getLast? = some .newline := hended.resolve_right (by omega)
      have hread := read_open (t := { w.tail with offset := 0, buffer := [] }) rfl (.inl hlast) (Nat.zero_le _)
      refine ⟨{ w.tail with offset := f.length, buffer := [] }, ?_, ?_⟩
      · rw [Tail.read, newEvents, hfile]
        simp only [hshort, if_true, hopened]
        simpa [hopened] using hread
      · exact {
          skips := h.skips
          closed := fun hclosed => by rw [hopened] at hclosed; cases hclosed
          buffer := rfl
          max_line := rfl
          initial_size := rfl
          behind := by simp [hfile, Tail.position, hopened]
          level := fun _ => by simp [hfile, Tail.position, hopened]
          missing := fun hnone => by rw [hfile] at hnone; cases hnone }
    · by_cases hlonger : w.tail.position ≤ f.length
      · -- the reader goes on from its position
        refine ⟨{ w.tail with opened := true, offset := f.length }, ?_, ?_⟩
        · rw [Tail.read, newEvents, hfile]
          simp only [hshort, if_false]
          cases hopened : w.tail.opened with
          | true =>
            have hposition : w.tail.position = w.tail.offset := by simp [Tail.position, hopened]
            rw [hposition] at hended hlonger ⊢
            simpa [hopened] using read_open h.buffer hended hlonger
          | false =>
            have hposition : w.tail.position = w.tail.initial_size := by simp [Tail.position, hopened]
            rw [hposition] at hended hlonger ⊢
            simpa [h.skips] using
              read_open (t := { w.tail with opened := true, offset := w.tail.initial_size }) h.buffer hended hlonger
        · exact {
            skips := h.skips
            closed := nofun
            buffer := h.buffer
            max_line := rfl
            initial_size := rfl
            behind := by simp [hfile, Tail.position]
            level := fun _ => by simp [hfile, Tail.position]
            missing := fun hnone => by rw [hfile] at hnone; cases hnone }
      · -- the file was trimmed before the first read
        have hclosed : w.tail.opened = false := by
          by_contra hopened
          rw [Bool.not_eq_false] at hopened
          simp only [Tail.position, hopened, if_true] at hlonger
          omega
        have hposition : w.tail.position = w.tail.initial_size := by simp [Tail.position, hclosed]
        refine ⟨{ w.tail with opened := true, offset := w.tail.initial_size }, ?_, ?_⟩
        · rw [Tail.read, newEvents, hfile]
          have hle : f.length ≤ w.tail.initial_size := by omega
          simp only [hshort, if_false, hclosed, Bool.false_eq_true, h.skips, if_true, hle, hposition,
            drop_eq_nil_of_le hle]
          rfl
        · exact {
            skips := h.skips
            closed := nofun
            buffer := h.buffer
            max_line := rfl
            initial_size := rfl
            behind := by
              simp only [hfile, getD_some, Tail.position, if_true]
              omega
            level := fun hlevel => by
              simp only [hfile, getD_some] at hlevel
              omega
            missing := fun hnone => by rw [hfile] at hnone; cases hnone }

theorem newEvents_passed (h : Sound w) : ∀ e ∈ newEvents w, e.1 ≤ w.appended.length := by
  intro e he
  unfold newEvents at he
  cases hfile : w.file with
  | none =>
    rw [hfile] at he
    cases he
  | some f =>
    have hbounded := h.bounded
    simp only [hfile, getD_some] at he hbounded
    split at he
    · obtain ⟨u, hu⟩ := mem_eventsOf he
      exact hbounded u _ hu
    · obtain ⟨u, hu⟩ := mem_eventsOf he
      exact hbounded u _ (mem_of_mem_drop hu)

theorem sound_read (h : Sound w) : Sound (step w .read) := by
  obtain ⟨t, hread, hkept⟩ := h.read
  simp only [step, hread]
  exact {
    bounded := h.bounded
    ordered := h.ordered
    ended := h.ended.imp_right fun hlevel => hkept.level hlevel.ge
    missing := hkept.missing
    skips := hkept.skips
    closed := hkept.closed
    buffer := hkept.buffer
    fresh := by
      rw [drop_eq_nil_of_le hkept.behind]
      exact nofun
    passed := by
      intro e he
      rcases mem_append.mp he with he | he
      · exact h.passed e he
      · exact newEvents_passed h e he }

theorem sound_step (h : Sound w) (op : Op) : Sound (step w op) := by
  cases op with
  | append record max_bytes => exact sound_append h record max_bytes
  | read => exact sound_read h

theorem sound_after (existing : Option (List ℕ)) (max_line : ℕ) (ops : List Op) : Sound (after existing max_line ops) := by
  induction ops using List.reverseRecOn with
  | nil => exact sound_start existing max_line
  | append_singleton ops op ih =>
    rw [after, foldl_append]
    exact sound_step ih op

/-! ## What is returned -/

/-- Each record is returned at most once, in order, and none that was there before the reader. -/
def InOrder (returned : List Event) : Prop := returned.Pairwise (fun e e' => e.1 < e'.1) ∧ ∀ e ∈ returned, 0 < e.1

/-- A read that finds the file shorter than its offset finds only lines behind those that were returned, and none that
was there before the reader. -/
def NoReplay (w : World) : Prop :=
  ∀ f, w.file = some f → f.length < w.tail.offset →
    ∀ e ∈ (eventsOf w.tail.max_line f).1, 0 < e.1 ∧ ∀ e' ∈ w.returned, e'.1 < e.1

theorem inOrder_append {l l' : List Event} :
    InOrder (l ++ l') ↔ InOrder l ∧ InOrder l' ∧ ∀ e ∈ l', ∀ e' ∈ l, e'.1 < e.1 := by
  simp only [InOrder, pairwise_append, mem_append]
  constructor
  · rintro ⟨⟨h₁, h₂, h₃⟩, h₄⟩
    exact ⟨⟨h₁, fun e he => h₄ e (.inl he)⟩, ⟨h₂, fun e he => h₄ e (.inr he)⟩, fun e he e' he' => h₃ e' he' e he⟩
  · rintro ⟨⟨h₁, h₄⟩, ⟨h₂, h₅⟩, h₃⟩
    exact ⟨⟨h₁, h₂, fun e' he' e he => h₃ e he e' he'⟩, fun e he => he.elim (h₄ e) (h₅ e)⟩

theorem inOrder_read (h : Sound w) : InOrder (step w .read).returned ↔ InOrder w.returned ∧ NoReplay w := by
  obtain ⟨t, hread, -⟩ := h.read
  simp only [step, hread]
  rw [inOrder_append]
  refine and_congr_right fun _ => ?_
  unfold newEvents NoReplay
  cases hfile : w.file with
  | none => simp [InOrder]
  | some f =>
    have hordered := h.ordered
    have hfresh := h.fresh
    simp only [hfile, getD_some] at hordered hfresh
    simp only [some.injEq, forall_eq']
    split
    · next hshort =>
      constructor
      · rintro ⟨⟨-, hpos⟩, hlater⟩ - e he
        exact ⟨hpos e he, hlater e he⟩
      · intro hnew
        have hpos : ∀ e ∈ (eventsOf w.tail.max_line f).1, 0 < e.1 := fun e he => (hnew hshort e he).1
        exact ⟨⟨eventsOf_pairwise _ hordered hpos, hpos⟩, fun e he => (hnew hshort e he).2⟩
    · next hlong =>
      have hnew : ∀ e ∈ (eventsOf w.tail.max_line (f.drop w.tail.position)).1, 0 < e.1 ∧ ∀ e' ∈ w.returned, e'.1 < e.1 := by
        intro e he
        obtain ⟨u, hu⟩ := mem_eventsOf he
        exact hfresh _ hu u _ rfl
      have hpos := fun e he => (hnew e he).1
      refine iff_of_true ⟨⟨eventsOf_pairwise _ (hordered.sublist (drop_sublist _ _)) hpos, hpos⟩, ?_⟩ ?_
      · exact fun e he => (hnew e he).2
      · exact fun hshort => absurd hshort hlong

/-- The reads of a run replay nothing. -/
def Meets (existing : Option (List ℕ)) (max_line : ℕ) (ops : List Op) : Prop :=
  ∀ pre post, ops = pre ++ .read :: post → NoReplay (after existing max_line pre)

theorem meets_snoc {existing : Option (List ℕ)} {ops : List Op} {op : Op} :
    Meets existing max_line (ops ++ [op]) ↔
      Meets existing max_line ops ∧ (op = .read → NoReplay (after existing max_line ops)) := by
  constructor
  · intro h
    refine ⟨fun pre post heq => h pre (post ++ [op]) (by simp [heq]), fun hop => h ops [] (by rw [hop])⟩
  · rintro ⟨h, hlast⟩ pre post heq
    rcases eq_nil_or_concat post with rfl | ⟨post, x, rfl⟩
    · obtain ⟨rfl, hop⟩ := append_inj' heq rfl
      exact hlast (singleton_inj.mp hop)
    · rw [concat_eq_append, ← cons_append, ← append_assoc] at heq
      exact h pre post (append_inj' heq rfl).1

theorem inOrder_iff (existing : Option (List ℕ)) (max_line : ℕ) (ops : List Op) :
    InOrder (after existing max_line ops).returned ↔ Meets existing max_line ops := by
  induction ops using List.reverseRecOn with
  | nil =>
    refine iff_of_true ⟨Pairwise.nil, nofun⟩ fun pre post h => ?_
    simp at h
  | append_singleton ops op ih =>
    have hs := sound_after existing max_line ops
    rw [meets_snoc, ← ih, after, foldl_append, ← after, foldl_cons, foldl_nil]
    cases op with
    | read =>
      rw [inOrder_read hs]
      exact and_congr_right fun _ => ⟨fun h _ => h, fun h => h rfl⟩
    | append record max_bytes =>
      have hsame : (step (after existing max_line ops) (.append record max_bytes)).returned =
          (after existing max_line ops).returned := by
        simp only [step]
        split <;> rfl
      rw [hsame]
      exact ⟨fun h => ⟨h, nofun⟩, fun h => h.1⟩

/-! ## Without a trim -/

/-- What these calls write, the first of them with this number. -/
def written (call : ℕ) : List Record → List Cell
  | [] => []
  | record :: records => cells call (payload record) ++ written (call + 1) records

/-- The records whose lines are not too long, with their calls. -/
def deliverable (max_line call : ℕ) : List Record → List Event
  | [] => []
  | record :: records =>
    (if (lineOf record).length ≤ max_line then [(call, record.1)] else []) ++ deliverable max_line (call + 1) records

theorem written_append (call : ℕ) (l l' : List Record) :
    written call (l ++ l') = written call l ++ written (call + l.length) l' := by
  induction l generalizing call with
  | nil => rfl
  | cons record l ih =>
    rw [cons_append, written, written, ih, append_assoc, length_cons,
      show call + 1 + l.length = call + (l.length + 1) by omega]

theorem deliverable_append (max_line call : ℕ) (l l' : List Record) :
    deliverable max_line call (l ++ l') = deliverable max_line call l ++ deliverable max_line (call + l.length) l' := by
  induction l generalizing call with
  | nil => rfl
  | cons record l ih =>
    rw [cons_append, deliverable, deliverable, ih, append_assoc, length_cons,
      show call + 1 + l.length = call + (l.length + 1) by omega]

theorem cells_value (call : ℕ) (bytes : List ℕ) : (cells call bytes).map Cell.value = bytes := by
  have hvalue : (Cell.value ∘ fun b : ℕ => if b = 10 then Cell.newline else .byte b call) = id := by
    funext b
    by_cases hb : b = 10 <;> simp [hb, Cell.value]
  rw [cells, List.map_map, hvalue, List.map_id]

/-- The line of a record is read as its fields, unless it is too long. -/
theorem eventOf_line (max_line call : ℕ) (record : Record) :
    eventOf max_line (cells call (lineOf record)) =
      if (lineOf record).length ≤ max_line then some (call, record.1) else none := by
  obtain ⟨rest, hrest⟩ : ∃ rest, lineOf record = 123 :: rest := by
    exact ⟨_, rfl⟩
  have hstart : cells call (lineOf record) = .byte 123 call :: cells call rest := by
    rw [hrest]
    rfl
  have hblank : (cells call (lineOf record)).all (fun c => isSpace c.value) = false := by
    rfl
  have hlength : (cells call (lineOf record)).length = (lineOf record).length := length_map _
  have hcall : callOf (cells call (lineOf record)) = call := by
    rfl
  have hread : (Wire.Utf8.decode ((cells call (lineOf record)).map Cell.value)).bind loads = some (.object record.1) := by
    rw [cells_value, lineOf, Wire.Utf8.decode_encode, bind_some]
    exact Wire.loads_dumps ⟨⟨[], rfl, nofun⟩, [], rfl, nofun⟩ record.2
  unfold eventOf
  rw [hblank, hlength, hread, hcall]
  by_cases hlong : max_line < (lineOf record).length
  · rw [if_neg (by decide), if_pos hlong, if_neg (by omega)]
  · rw [if_neg (by decide), if_neg hlong, if_pos (by omega)]

theorem eventsOf_written (max_line call : ℕ) (records : List Record) :
    (eventsOf max_line (written call records)).1 = deliverable max_line call records := by
  induction records generalizing call with
  | nil => rfl
  | cons record records ih =>
    have hsplit : split (written call (record :: records)) = cells call (lineOf record) :: split (written (call + 1) records) := by
      rw [written, cells_payload, append_assoc, singleton_append, split_line (newline_notMem_line call record)]
    have hrest := ih (call + 1)
    simp only [eventsOf] at hrest ⊢
    rw [hsplit, dropLast_cons_of_ne_nil (split_ne_nil _), filterMap_cons, eventOf_line, hrest, deliverable]
    by_cases hfits : (lineOf record).length ≤ max_line <;> simp [hfits]

/-- The file and the reader while the file was never trimmed. -/
structure Untrimmed (existing : Option (List ℕ)) (max_line : ℕ) (w : World) : Prop where
  file : w.file.getD [] = cells 0 (existing.getD []) ++ written 1 w.appended
  limit : w.tail.max_line = max_line
  reached : ∃ done rest, w.appended = done ++ rest ∧
    w.tail.position = (cells 0 (existing.getD []) ++ written 1 done).length ∧ w.returned = deliverable max_line 1 done

section Untrimmed

variable {existing : Option (List ℕ)} {max_line : ℕ} {w : World}

theorem untrimmed_start (existing : Option (List ℕ)) (max_line : ℕ) : Untrimmed existing max_line (start existing max_line) where
  file := by cases existing <;> simp [start, written, cells]
  limit := rfl
  reached := ⟨[], [], rfl, by cases existing <;> simp [start, written, cells, Tail.new, Tail.position], rfl⟩

theorem trimmed_step (op : Op) (h : w.trimmed = true) : (step w op).trimmed = true := by
  cases op with
  | append record max_bytes =>
    simp only [step]
    split <;> simp [h]
  | read => simpa [step] using h

theorem untrimmed_append (h : Untrimmed existing max_line w) (record : Record) (max_bytes : ℤ)
    (hkept : (step w (.append record max_bytes)).trimmed = false) :
    Untrimmed existing max_line (step w (.append record max_bytes)) := by
  simp only [step] at hkept ⊢
  cases happend : appendJsonl (w.appended.length + 1) record max_bytes w.file with
  | none => exact h
  | some f =>
    simp only [happend, Bool.or_eq_false_iff, decide_eq_false_iff_not] at hkept
    obtain ⟨hf, -, -⟩ := appendJsonl_some happend
    have hwhole : f = w.file.getD [] ++ cells (w.appended.length + 1) (payload record) := by
      rw [hf, trimJsonl, if_pos]
      have hlength : (cells (w.appended.length + 1) (payload record)).length = (payload record).length := length_map _
      rw [length_append, hlength]
      omega
    obtain ⟨done, rest, happended, hposition, hreturned⟩ := h.reached
    refine ⟨?_, h.limit, done, rest ++ [record], ?_, hposition, hreturned⟩
    · simp only [getD_some]
      rw [hwhole, h.file, written_append, append_assoc, Nat.add_comm 1]
      simp [written]
    · simp only [happended, append_assoc]

theorem untrimmed_read (hs : Sound w) (h : Untrimmed existing max_line w) :
    Untrimmed existing max_line (step w .read) ∧ (step w .read).returned = deliverable max_line 1 w.appended := by
  obtain ⟨t, hread, hkept⟩ := hs.read
  obtain ⟨done, rest, happended, hposition, hreturned⟩ := h.reached
  have hfile : w.file.getD [] = (cells 0 (existing.getD []) ++ written 1 done) ++ written (1 + done.length) rest := by
    rw [h.file, happended, written_append, append_assoc]
  have hle : w.tail.position ≤ (w.file.getD []).length := by
    rw [hfile, length_append, hposition]
    exact Nat.le_add_right _ _
  have hdrop : (w.file.getD []).drop w.tail.position = written (1 + done.length) rest := by
    rw [hfile, hposition, drop_left]
  have hevents : newEvents w = deliverable max_line (1 + done.length) rest := by
    rw [← eventsOf_written, ← hdrop]
    unfold newEvents
    cases hw : w.file with
    | none => simp [eventsOf, split]
    | some f =>
      have hlong : ¬ f.length < w.tail.offset := by
        rw [hw, getD_some] at hle
        cases hopened : w.tail.opened with
        | true =>
          simp only [Tail.position, hopened, if_true] at hle
          omega
        | false =>
          have := hs.closed hopened
          omega
      simp only [hlong, if_false, h.limit, getD_some]
  have hall : (step w .read).returned = deliverable max_line 1 w.appended := by
    simp only [step, hread]
    rw [hreturned, hevents, happended, deliverable_append]
  refine ⟨⟨?_, ?_, w.appended, [], ?_, ?_, hall⟩, hall⟩
  · simpa [step, hread] using h.file
  · simpa [step, hread, hkept.max_line] using h.limit
  · simp [step, hread]
  · simp only [step, hread]
    rw [← hkept.level hle, h.file]

theorem untrimmed_after (ops : List Op) (h : (after existing max_line ops).trimmed = false) :
    Untrimmed existing max_line (after existing max_line ops) := by
  induction ops using List.reverseRecOn with
  | nil => exact untrimmed_start existing max_line
  | append_singleton ops op ih =>
    rw [after, foldl_append, ← after, foldl_cons, foldl_nil] at h ⊢
    have hbefore : (after existing max_line ops).trimmed = false := by
      by_contra htrimmed
      rw [trimmed_step op (by simpa using htrimmed)] at h
      cases h
    cases op with
    | append record max_bytes => exact untrimmed_append (ih hbefore) record max_bytes h
    | read => exact (untrimmed_read (sound_after existing max_line ops) (ih hbefore)).1

theorem trimmed_before {pre post : List Op} (h : (after existing max_line (pre ++ post)).trimmed = false) :
    (after existing max_line pre).trimmed = false := by
  induction post using List.reverseRecOn with
  | nil => rwa [append_nil] at h
  | append_singleton post op ih =>
    refine ih ?_
    by_contra htrimmed
    rw [← append_assoc, after, foldl_append, ← after, foldl_cons, foldl_nil,
      trimmed_step op (by simpa using htrimmed)] at h
    cases h

end Untrimmed

/-- The records that are returned are returned at most once and in order, and none was there before the reader; without a
trim, each read has returned all that were appended and fit a line. This holds of a run exactly when its reads replay
nothing. -/
theorem delivery_iff (existing : Option (List ℕ)) (max_line : ℕ) (ops : List Op) :
    (InOrder (after existing max_line ops).returned ∧
      ((after existing max_line ops).trimmed = false → ∀ pre post, ops = pre ++ .read :: post →
        (after existing max_line (pre ++ [.read])).returned =
          deliverable max_line 1 (after existing max_line pre).appended)) ↔
      Meets existing max_line ops := by
  rw [← inOrder_iff]
  refine and_iff_left fun htrimmed pre post hops => ?_
  rw [hops] at htrimmed
  rw [after, foldl_append, ← after, foldl_cons, foldl_nil]
  exact (untrimmed_read (sound_after existing max_line pre) (untrimmed_after pre (trimmed_before htrimmed))).2

def emptyLines (n : ℕ) : List ℕ := (List.replicate n [123, 125, 10]).flatten

def oneField : Record := ⟨[(['a'], .int 1)], by simp [Json.Plain, Wire.PlainFields]⟩

/-- A trim leaves the file shorter than it was when the reader was built: the second read returns old records. -/
theorem oldRecords_replayed :
    ((after (some (emptyLines 600)) 8192 [.append oneField 1000, .read, .read]).returned.filter fun e => e.1 = 0).length =
      498 := by
  decide +kernel

end Docich.Osc.Spool
