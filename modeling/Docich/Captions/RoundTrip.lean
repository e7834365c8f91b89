import Docich.Captions.Plan

/-!
# Plans round-trip

What a plan holds (`planChunk_ok`), what the reader asks of it (`loadChunk_toJson`), and when the two meet
(`plan_loads`): if no word of a translation is longer than a line. Its pages can be shown in any case.
-/

namespace Docich.Captions

open List Option

variable {ε α : Type} {message : String} {u : Unit} {width index : Nat} {maxPages : Int}
    {page : CaptionPage} {text : List Char} {pair : List Char × List Char}
    {pairs : List (List Char × List Char)}

theorem bind_ok {β : Type} {x : Except ε α} {f : α → Except ε β} {b : β} :
    (x >>= f) = .ok b ↔ ∃ a, x = .ok a ∧ f a = .ok b := by
  constructor
  · exact Fallible.bind_ok
  · rintro ⟨a, rfl, h⟩
    exact h

theorem pure_ok {a b : α} : (pure a : Except ε α) = .ok b ↔ a = b := by
  constructor
  · intro h
    cases h
    rfl
  · rintro rfl
    rfl

theorem need_ok {condition : Bool} : need condition message = .ok u ↔ condition = true := by
  cases condition
  · simp [need, throw, throwThe, MonadExceptOf.throw]
  · simp [need, pure, Except.pure]

theorem want_ok {value : Option α} {a : α} :
    want value message = .ok a ↔ value = some a := by
  cases value with
  | none => simp [want, throw, throwThe, MonadExceptOf.throw]
  | some b => simp [want, pure, Except.pure]

/-! ## Words -/

/-- No word of a translation's normal form is longer than a line. -/
def WordsFit (nfkd : List Char → List Char) (maxColumns : Int) (translation : List Char) : Prop :=
  ∀ text, normalizeCaptionText nfkd translation = .ok text →
    ∀ word, word <:+: text → ' ' ∉ word → (word.length : Int) ≤ maxColumns

/-- What has no separator stands on one side of it. -/
theorem infix_append_cons {w a b : List α} {c : α} (h : w <:+: a ++ c :: b) (hc : c ∉ w) :
    w <:+: a ∨ w <:+: b := by
  obtain ⟨s, t, h⟩ := h
  rw [append_assoc] at h
  rcases append_eq_append_iff.mp h with ⟨rest, ha, hrest⟩ | ⟨rest, -, hrest⟩
  · rcases append_eq_append_iff.mp hrest with ⟨rest', hword, -⟩ | ⟨rest', hword, hrest'⟩
    · exact .inl ⟨s, rest', by rw [ha, hword, append_assoc]⟩
    · rcases rest' with _ | ⟨d, rest'⟩
      · rw [append_nil] at hword
        exact .inl ⟨s, [], by rw [ha, hword, append_nil]⟩
      · cases hrest'
        exact absurd (hword ▸ mem_append_right _ mem_cons_self) hc
  · rcases rest with _ | ⟨d, rest⟩
    · rcases w with _ | ⟨d, w⟩
      · exact .inl nil_infix
      · cases hrest
        exact absurd mem_cons_self hc
    · cases hrest
      exact .inr ⟨rest, t, by simp⟩

variable {lines : List (List Char)} {maxColumns maxLines : Int} {nfkd : List Char → List Char}
  {chunk : BilingualSpeechChunk}

theorem infix_intercalate {w : List Char} (hne : w ≠ []) (hw : ' ' ∉ w)
    (h : w <:+: [' '].intercalate lines) : ∃ line ∈ lines, w <:+: line := by
  induction lines with
  | nil => exact absurd (infix_nil.mp h) hne
  | cons line lines ih =>
    by_cases hlines : lines = []
    · subst hlines
      exact ⟨line, mem_cons_self, by simpa [List.intercalate] using h⟩
    · rw [intercalate_cons hlines] at h
      rcases infix_append_cons h hw with h | h
      · exact ⟨line, mem_cons_self, h⟩
      · obtain ⟨found, hfound, h⟩ := ih h
        exact ⟨found, mem_cons_of_mem _ hfound, h⟩

theorem wordsFit_of_lines (hcolumns : 0 ≤ maxColumns) {translation : List Char}
    (htext : normalizeCaptionText nfkd translation = .ok ([' '].intercalate lines))
    (hfits : ∀ line ∈ lines, (line.length : Int) ≤ maxColumns) : WordsFit nfkd maxColumns translation := by
  intro text h word hword hspace
  rw [htext] at h
  cases h
  by_cases hne : word = []
  · subst hne
    exact hcolumns
  · obtain ⟨line, hmem, hinfix⟩ := infix_intercalate hne hspace hword
    have hlength := hinfix.length_le
    have hline := hfits line hmem
    omega

/-- In a text of words, the longest runs without a space are the words. -/
theorem Alternating.length_le {chunks : List (List Char)} (h : Alternating chunks) (hwidth : 1 ≤ width)
    (hwords : ∀ word, word <:+: chunks.flatten → ' ' ∉ word → word.length ≤ width) :
    ∀ chunk ∈ chunks, chunk.length ≤ width := by
  have hword : ∀ {word : List Char}, IsWord word → ' ' ∉ word := fun hw hmem => (hw.chars _ hmem).2 rfl
  induction h with
  | @one word hw =>
    intro chunk hchunk
    rw [mem_singleton.mp hchunk]
    exact hwords word (by simp) (hword hw)
  | @cons word chunks hw _ ih =>
    intro chunk hchunk
    rcases mem_cons.mp hchunk with rfl | hchunk
    · exact hwords chunk ⟨[], ' ' :: chunks.flatten, by simp⟩ (hword hw)
    · rcases mem_cons.mp hchunk with rfl | hchunk
      · exact hwidth
      · refine ih (fun found hfound => hwords found ?_) chunk hchunk
        exact hfound.trans ⟨word ++ [' '], [], by simp⟩

/-! ## What a plan holds -/

theorem pagesFrom_length (m n index : Nat) (lines : List (List Char)) :
    (pagesFrom m n index lines).length * m ≤ lines.length + m - 1 := by
  induction n generalizing index lines with
  | zero => simp [pagesFrom]
  | succ n ih =>
    rcases lines with _ | ⟨line, lines⟩
    · simp [pagesFrom]
    · have := ih (index + 1) ((line :: lines).drop m)
      rw [pagesFrom, length_cons, Nat.add_mul, Nat.one_mul]
      rw [length_drop] at this
      by_cases hlast : (line :: lines).length ≤ m
      · have hnil : (line :: lines).drop m = [] := drop_eq_nil_iff.mpr hlast
        have hpages : ∀ k, pagesFrom m k (index + 1) [] = [] := by rintro (_ | k) <;> rfl
        rw [hnil, hpages]
        simp only [length_nil, length_cons]
        omega
      · omega

/-- A chunk as it is planned from a Japanese text and its translation. -/
structure Planned (nfkd : List Char → List Char) (maxColumns maxLines : Int) (pair : List Char × List Char)
    (chunk : BilingualSpeechChunk) : Prop where
  columns : 1 ≤ maxColumns ∧ maxColumns ≤ 32
  linesBound : 1 ≤ maxLines ∧ maxLines ≤ 2
  japanese : chunk.jaText = stripUnicode pair.1
  japanese_ne : chunk.jaText ≠ []
  english : normalizeCaptionText nfkd pair.2 = .ok chunk.enText
  pages : chunk.pages = pagesFrom maxLines.toNat (wrap maxColumns.toNat chunk.enText).length 0
    (wrap maxColumns.toNat chunk.enText)
  lines_ne : wrap maxColumns.toNat chunk.enText ≠ []
  few : chunk.pages.length ≤ 32

variable (hnfkd : KeepsAscii nfkd)

include hnfkd in
theorem planChunk_ok {japanese english : List Char}
    (h : planChunk nfkd maxColumns maxLines maxPages index japanese english = .ok chunk) :
    chunk.index = index ∧ Planned nfkd maxColumns maxLines (japanese, english) chunk := by
  unfold planChunk wrapCaptionPages at h
  simp only [bind_ok, need_ok, pure_ok, decide_eq_true_eq] at h
  obtain ⟨-, hja, text, htext, pages, ⟨-, hcolumns, -, hlines, -, hpages, text', htext', -, hne, -, hfew, rfl⟩, rfl⟩ := h
  have hsame : text' = text := by
    have := normalize_of_normal hnfkd (normal_of_normalize htext)
    rw [htext'] at this
    cases this
    rfl
  subst hsame
  refine ⟨rfl, hcolumns, hlines, rfl, hja, htext, rfl, hne, ?_⟩
  have hlength := pagesFrom_length maxLines.toNat (wrap maxColumns.toNat text').length 0 (wrap maxColumns.toNat text')
  generalize (pagesFrom maxLines.toNat (wrap maxColumns.toNat text').length 0 (wrap maxColumns.toNat text')).length = k
    at hlength ⊢
  generalize (wrap maxColumns.toNat text').length = l at hlength hfew
  obtain rfl | rfl : maxLines = 1 ∨ maxLines = 2 := by omega
  · simp only [Int.toNat_one] at hlength
    omega
  · have : (2 : Int).toNat = 2 := rfl
    rw [this] at hlength
    omega

theorem pagesFrom_shown {m : Nat} (hm : 1 ≤ m) {n : Nat}
    (h : page ∈ pagesFrom m n index lines) :
    page.lines ≠ [] ∧ page.lines.length ≤ m ∧ ∀ line ∈ page.lines, line ∈ lines := by
  induction n generalizing index lines with
  | zero => cases h
  | succ n ih =>
    rcases lines with _ | ⟨line, lines⟩
    · cases h
    · rw [pagesFrom] at h
      rcases mem_cons.mp h with rfl | h
      · refine ⟨?_, length_take_le _ _, fun found hfound => mem_of_mem_take hfound⟩
        simp
        omega
      · obtain ⟨hne, hlength, hmem⟩ := ih h
        exact ⟨hne, hlength, fun found hfound => mem_of_mem_drop (hmem found hfound)⟩

theorem pagesFrom_lines {m : Nat} (hm : 1 ≤ m) {n : Nat} (h : lines.length ≤ n) :
    (pagesFrom m n index lines).flatMap CaptionPage.lines = lines := by
  induction n generalizing index lines with
  | zero => simp [pagesFrom, length_eq_zero_iff.mp (Nat.le_zero.mp h)]
  | succ n ih =>
    cases lines with
    | nil => rfl
    | cons line lines =>
      rw [pagesFrom, flatMap_cons, ih (by simp at h ⊢; omega)]
      exact take_append_drop ..

/-- Between a text and its pages only spaces are lost, also where a word is longer than a line. -/
theorem pages_visible (h : wrapCaptionPages nfkd value maxColumns maxLines maxPages = .ok pages) :
    ∃ text, normalizeCaptionText nfkd value = .ok text ∧ visible (pages.flatMap CaptionPage.lines).flatten = visible text := by
  unfold wrapCaptionPages at h
  simp only [bind_ok, need_ok, pure_ok, decide_eq_true_eq] at h
  obtain ⟨-, hcolumns, -, hlines, -, -, text, htext, -, -, -, -, rfl⟩ := h
  refine ⟨text, htext, ?_⟩
  rw [pagesFrom_lines (by omega) le_rfl, wrap_visible (by omega) (normal_of_normalize htext)]

theorem pages_visible_game : ∃ text, normalizeCaptionText (fun text => text) "Gamers  win".toList = .ok text ∧
    visible ["Game".toList, "rs".toList, "win".toList].flatten = visible text :=
  pages_visible (show wrapCaptionPages _ _ 4 2 2 = .ok [⟨0, ["Game".toList, "rs".toList]⟩, ⟨1, ["win".toList]⟩] from rfl)

/-! ## Reading a plan that was built -/

/-- A line as the reader takes it. -/
def Readable (nfkd : List Char → List Char) (maxColumns : Int) (line : List Char) : Prop :=
  normalizeCaptionText nfkd line = .ok line ∧ (line.length : Int) ≤ maxColumns

theorem mapM_loadLine {chunkIndex pageIndex : Nat} {found : List (List Char)} :
    (lines.map Json.str).mapM (loadLine nfkd maxColumns chunkIndex pageIndex) = .ok found ↔
      found = lines ∧ ∀ line ∈ lines, Readable nfkd maxColumns line := by
  have hline : ∀ {line text : List Char}, loadLine nfkd maxColumns chunkIndex pageIndex (.str line) = .ok text ↔
      text = line ∧ Readable nfkd maxColumns line := by
    intro line text
    unfold loadLine
    simp only [bind_ok, want_ok, need_ok, pure_ok, Json.str?, some.injEq, decide_eq_true_eq]
    constructor
    · rintro ⟨_, rfl, normalized, hnormal, -, ⟨rfl, hlength⟩, rfl⟩
      exact ⟨rfl, hnormal, hlength⟩
    · rintro ⟨rfl, hnormal, hlength⟩
      exact ⟨_, rfl, _, hnormal, (), ⟨rfl, hlength⟩, rfl⟩
  induction lines generalizing found with
  | nil =>
    simp only [map_nil, mapM_nil, pure_ok, not_mem_nil, false_implies, implies_true, and_true]
    exact eq_comm
  | cons line lines ih =>
    simp only [map_cons, mapM_cons, bind_ok, pure_ok, hline, ih, forall_mem_cons]
    constructor
    · rintro ⟨_, ⟨rfl, hfirst⟩, _, ⟨rfl, hrest⟩, rfl⟩
      exact ⟨rfl, hfirst, hrest⟩
    · rintro ⟨rfl, hfirst, hrest⟩
      exact ⟨line, ⟨rfl, hfirst⟩, lines, ⟨rfl, hrest⟩, rfl⟩

theorem loadPage_toJson (nfkd : List Char → List Char) (maxColumns maxLines : Int) (chunkIndex : Nat) (page : CaptionPage)
    (hne : page.lines ≠ []) (hlength : (page.lines.length : Int) ≤ maxLines) (found : List (List Char)) :
    loadPage nfkd maxColumns maxLines chunkIndex page.index page.toJson = .ok found ↔
      found = page.lines ∧ ∀ line ∈ page.lines, Readable nfkd maxColumns line := by
  have hpos : 1 ≤ page.lines.length := length_pos_iff.mpr hne
  have hfields : exactFields ["index", "lines"] page.toJson =
      some [("index", .int page.index), ("lines", .arr (page.lines.map .str))] := by
    simp [exactFields, CaptionPage.toJson, Json.fields?]
  unfold loadPage
  rw [hfields]
  simp only [bind_ok, want_ok, need_ok, some.injEq, exists_eq_left', exists_const, field, List.lookup, BEq.rfl,
    String.reduceBEq, getD_some, Json.number?, Json.items?, length_map, Bool.decide_and, Bool.and_eq_true,
    decide_eq_true_eq, hpos, hlength, and_self, true_and]
  exact mapM_loadLine

theorem loadPages_pagesFrom (nfkd : List Char → List Char) (maxColumns : Int) (hlines : 1 ≤ maxLines)
    (chunkIndex n index : Nat) (hn : lines.length ≤ n) (found : List (List Char)) :
    loadPages nfkd maxColumns maxLines chunkIndex index ((pagesFrom maxLines.toNat n index lines).map CaptionPage.toJson) =
        .ok found ↔ found = lines ∧ ∀ line ∈ lines, Readable nfkd maxColumns line := by
  induction n generalizing index lines found with
  | zero =>
    obtain rfl := length_eq_zero_iff.mp (Nat.le_zero.mp hn)
    simp only [pagesFrom, map_nil, loadPages, pure_ok, not_mem_nil, false_implies, implies_true, and_true]
    exact eq_comm
  | succ n ih =>
    rcases lines with _ | ⟨line, lines⟩
    · simp only [pagesFrom, map_nil, loadPages, pure_ok, not_mem_nil, false_implies, implies_true, and_true]
      exact eq_comm
    · have hrest : ((line :: lines).drop maxLines.toNat).length ≤ n := by
        rw [length_drop]
        omega
      have hmem : ⟨index, (line :: lines).take maxLines.toNat⟩ ∈ pagesFrom maxLines.toNat (n + 1) index (line :: lines) :=
        mem_cons_self
      have hshown := pagesFrom_shown (by omega) hmem
      have hpage := loadPage_toJson nfkd maxColumns maxLines chunkIndex _ hshown.1 (by omega)
      rw [pagesFrom, map_cons, loadPages]
      simp only [bind_ok, pure_ok, hpage, ih (index + 1) hrest]
      have hall : (∀ l ∈ line :: lines, Readable nfkd maxColumns l) ↔
          (∀ l ∈ (line :: lines).take maxLines.toNat, Readable nfkd maxColumns l) ∧
          ∀ l ∈ (line :: lines).drop maxLines.toNat, Readable nfkd maxColumns l := by
        rw [← forall_mem_append, take_append_drop]
      rw [hall]
      constructor
      · rintro ⟨_, ⟨rfl, hfirst⟩, _, ⟨rfl, hrest⟩, rfl⟩
        exact ⟨take_append_drop _ _, hfirst, hrest⟩
      · rintro ⟨rfl, hfirst, hrest⟩
        exact ⟨_, ⟨rfl, hfirst⟩, _, ⟨rfl, hrest⟩, take_append_drop _ _⟩

theorem stripUnicode_ne (h : stripUnicode text ≠ []) : stripUnicode (stripUnicode text) ≠ [] := by
  -- a text that is not blank has a character that stripping keeps
  have hkeeps : ∀ {text : List Char} {c : Char}, c ∈ text → isUnicodeSpace c = false → c ∈ stripUnicode text := by
    intro text c hc hspace
    have hdrop : ∀ {text : List Char}, c ∈ text → c ∈ text.dropWhile isUnicodeSpace := by
      intro text hc
      rw [← takeWhile_append_dropWhile (p := isUnicodeSpace) (l := text)] at hc
      rcases mem_append.mp hc with hc | hc
      · exact absurd (mem_takeWhile_imp hc) (by simp [hspace])
      · exact hc
    exact mem_reverse.mpr (hdrop (mem_reverse.mpr (hdrop hc)))
  have hfound : ∃ c ∈ stripUnicode text, isUnicodeSpace c = false := by
    have hne : ((text.dropWhile isUnicodeSpace).reverse.dropWhile isUnicodeSpace) ≠ [] := by
      simpa [stripUnicode] using h
    exact ⟨_, mem_reverse.mpr (head_mem hne), head_dropWhile_not _ hne⟩
  obtain ⟨c, hc, hspace⟩ := hfound
  exact ne_nil_of_mem (hkeeps hc hspace)

include hnfkd

/-- The reader accepts a planned chunk when its lines are normal and spell the text. -/
theorem loadChunk_toJson (h : Planned nfkd maxColumns maxLines pair chunk) :
    loadChunk nfkd maxColumns maxLines chunk.index chunk.toJson = .ok u ↔
      (∀ line ∈ wrap maxColumns.toNat chunk.enText, Readable nfkd maxColumns line) ∧
      [' '].intercalate (wrap maxColumns.toNat chunk.enText) = chunk.enText := by
  have hfields : exactFields ["index", "jaText", "enText", "pages"] chunk.toJson =
      some [("index", .int chunk.index), ("jaText", .str chunk.jaText), ("enText", .str chunk.enText),
        ("pages", .arr (chunk.pages.map CaptionPage.toJson))] := by
    simp [exactFields, BilingualSpeechChunk.toJson, Json.fields?]
  have hja : stripUnicode chunk.jaText ≠ [] := by
    have := h.japanese_ne
    rw [h.japanese] at this ⊢
    exact stripUnicode_ne this
  have hnormal := normalize_of_normal hnfkd (normal_of_normalize h.english)
  have hpages : 1 ≤ chunk.pages.length := by
    obtain ⟨line, lines, hlines⟩ := exists_cons_of_ne_nil h.lines_ne
    rw [h.pages, hlines]
    simp [pagesFrom]
  have hload := loadPages_pagesFrom nfkd maxColumns h.linesBound.1 chunk.index _ 0
    (le_refl (wrap maxColumns.toNat chunk.enText).length)
  rw [← h.pages] at hload
  unfold loadChunk
  rw [hfields]
  simp only [bind_ok, want_ok, need_ok, some.injEq, exists_eq_left', exists_const, field, List.lookup, BEq.rfl,
    String.reduceBEq, getD_some, Json.number?, Json.items?, Json.str?, length_map, Bool.decide_and,
    Bool.and_eq_true, decide_eq_true_eq, hja, hpages, h.few, hload, ne_eq, not_false_eq_true, and_self, true_and]
  constructor
  · rintro ⟨_, _, -, _, ⟨rfl, hlines⟩, hjoin⟩
    exact ⟨hlines, hjoin⟩
  · rintro ⟨hlines, hjoin⟩
    exact ⟨_, hnormal, rfl, _, ⟨rfl, hlines⟩, hjoin⟩

/-- A planned chunk is read back when no word of its text is longer than a line. -/
theorem loadChunk_iff (h : Planned nfkd maxColumns maxLines pair chunk) :
    loadChunk nfkd maxColumns maxLines chunk.index chunk.toJson = .ok u ↔ WordsFit nfkd maxColumns pair.2 := by
  obtain ⟨chunks, halt, htext⟩ := normal_of_normalize h.english
  have hcolumns := h.columns
  rw [loadChunk_toJson hnfkd h]
  constructor
  · rintro ⟨hlines, hjoin⟩
    have henglish := h.english
    rw [← hjoin] at henglish
    exact wordsFit_of_lines (by omega) henglish fun line hline => (hlines line hline).2
  · intro hfit
    have hwords : ∀ word ∈ chunks, word.length ≤ maxColumns.toNat := by
      refine halt.length_le (by omega) fun word hword hspace => ?_
      have := hfit chunk.enText h.english word (htext ▸ hword) hspace
      omega
    have hwrapped := wrap_normal halt (by omega) hwords
    rw [htext] at hwrapped
    refine ⟨fun line hline => ⟨normalize_of_normal hnfkd (hwrapped.normal line hline), ?_⟩, hwrapped.join.trans htext⟩
    have := hwrapped.fits line hline
    omega

variable {chunks : List BilingualSpeechChunk}

theorem loadChunks_iff (h : planChunks nfkd maxColumns maxLines maxPages index pairs = .ok chunks) :
    loadChunks nfkd maxColumns maxLines index (chunks.map BilingualSpeechChunk.toJson) = .ok u ↔
      ∀ pair ∈ pairs, WordsFit nfkd maxColumns pair.2 := by
  induction pairs generalizing index chunks with
  | nil =>
    cases h
    simp [loadChunks, pure_ok]
  | cons pair pairs ih =>
    rw [planChunks] at h
    simp only [bind_ok, pure_ok] at h
    obtain ⟨chunk, hchunk, rest, hrest, rfl⟩ := h
    obtain ⟨rfl, hplanned⟩ := planChunk_ok hnfkd hchunk
    rw [map_cons, loadChunks, bind_ok, forall_mem_cons]
    simp only [loadChunk_iff hnfkd hplanned, ih hrest, exists_const]

theorem planChunks_planned (h : planChunks nfkd maxColumns maxLines maxPages index pairs = .ok chunks) :
    chunks.length = pairs.length ∧ ∀ chunk ∈ chunks, ∃ pair ∈ pairs, Planned nfkd maxColumns maxLines pair chunk := by
  induction pairs generalizing index chunks with
  | nil =>
    cases h
    simp
  | cons pair pairs ih =>
    rw [planChunks] at h
    simp only [bind_ok, pure_ok] at h
    obtain ⟨chunk, hchunk, rest, hrest, rfl⟩ := h
    obtain ⟨-, hplanned⟩ := planChunk_ok hnfkd hchunk
    obtain ⟨hlength, hall⟩ := ih hrest
    refine ⟨by rw [length_cons, length_cons, hlength], ?_⟩
    intro found hfound
    rcases mem_cons.mp hfound with rfl | hfound
    · exact ⟨pair, mem_cons_self, hplanned⟩
    · obtain ⟨source, hsource, h⟩ := hall found hfound
      exact ⟨source, mem_cons_of_mem _ hsource, h⟩

omit hnfkd

/-! ## Showing a page -/

theorem splitlinesFrom_printable (h : ∀ c ∈ text, isPrintable c = true) (line rest : List Char) :
    splitlinesFrom line (text ++ rest) = splitlinesFrom (line ++ text) rest := by
  induction text generalizing line with
  | nil => simp
  | cons c text ih =>
    have hc : 0x20 ≤ c.toNat ∧ c.toNat ≤ 0x7e := isPrintable_iff.mp (h c mem_cons_self)
    have hbreak : isLineBreak c = false := by
      simp only [isLineBreak, Bool.or_eq_false_iff, Bool.and_eq_false_iff, decide_eq_false_iff_not]
      omega
    have hne : c ≠ '\r' := by
      rintro rfl
      exact absurd hc.1 (by decide)
    have hstep : splitlinesFrom line (c :: (text ++ rest)) = splitlinesFrom (line ++ [c]) (text ++ rest) := by
      rw [splitlinesFrom, hbreak, if_neg Bool.false_ne_true]
      exact fun _ hcr => absurd hcr hne
    rw [cons_append, hstep, ih fun d hd => h d (mem_cons_of_mem _ hd), append_assoc]
    rfl

/-- One or two lines that are shown are the lines of their text. -/
theorem splitlines_text (hne : lines ≠ []) (hlength : lines.length ≤ 2)
    (h : ∀ line ∈ lines, Shown width line) : splitlines (['\n'].intercalate lines) = lines := by
  have hnil : ∀ {line : List Char}, Shown width line → splitlinesFrom line [] = [line] := by
    intro line hline
    obtain ⟨c, rest, rfl, -⟩ := hline.start
    rfl
  match lines with
  | [a] =>
    have ha := h a mem_cons_self
    have hjoin : ['\n'].intercalate [a] = a ++ [] := by simp [List.intercalate]
    rw [splitlines, hjoin, splitlinesFrom_printable ha.printable, nil_append, hnil ha]
  | [a, b] =>
    have ha := h a mem_cons_self
    have hb := h b (mem_cons_of_mem _ mem_cons_self)
    have hjoin : ['\n'].intercalate [a, b] = a ++ '\n' :: (b ++ []) := by simp [List.intercalate]
    have hbreak : splitlinesFrom a ('\n' :: (b ++ [])) = a :: splitlinesFrom [] (b ++ []) := by
      rw [splitlinesFrom, if_pos (by decide)]
      exact fun _ hcr => absurd hcr (by decide)
    rw [splitlines, hjoin, splitlinesFrom_printable ha.printable, nil_append, hbreak,
      splitlinesFrom_printable hb.printable, nil_append, hnil hb]

include hnfkd

theorem prepareText_shown (hne : lines ≠ []) (hlength : lines.length ≤ 2) (h : ∀ line ∈ lines, Shown 32 line) :
    ∃ text, Client.prepareText nfkd (['\n'].intercalate lines) = .ok text := by
  have hmap : ∃ normalized, lines.mapM (normalizeCaptionText nfkd) = .ok normalized ∧
      ∀ line ∈ normalized, line.length ≤ 32 := by
    clear hne hlength
    induction lines with
    | nil => exact ⟨[], rfl, by simp⟩
    | cons line lines ih =>
      obtain ⟨text, htext, hfits⟩ := (h line mem_cons_self).normalize hnfkd
      obtain ⟨rest, hrest, hall⟩ := ih fun l hl => h l (mem_cons_of_mem _ hl)
      refine ⟨text :: rest, ?_, forall_mem_cons.mpr ⟨hfits, hall⟩⟩
      rw [mapM_cons, htext, hrest]
      rfl
  obtain ⟨normalized, hmap, hfits⟩ := hmap
  have hpos := length_pos_iff.mpr hne
  refine ⟨['\n'].intercalate normalized, ?_⟩
  unfold Client.prepareText
  rw [splitlines_text hne hlength h, if_neg (by omega)]
  rw [bind_ok]
  refine ⟨normalized, hmap, ?_⟩
  rw [if_neg]
  · rfl
  · simpa using hfits

/-- A page of a planned chunk passes the client's checks and fits the wire, at every slot. -/
theorem prepare_planned (h : Planned nfkd maxColumns maxLines pair chunk)
    (hpage : page ∈ chunk.pages) {id : List Char} (hid : CheckedId id) {slot : Int} (hslot : 0 ≤ slot)
    (hslots : slot < protocolPageSlots) :
    ∃ request wire, Client.check nfkd (.prepare id slot page.text) = .ok request ∧ Client.request request = .ok wire := by
  have hcolumns := h.columns
  have hlines := h.linesBound
  rw [h.pages] at hpage
  obtain ⟨hne, hlength, hmem⟩ := pagesFrom_shown (by omega) hpage
  have hshown : ∀ line ∈ page.lines, Shown 32 line := by
    intro line hline
    obtain ⟨hstart, hprint, hfits⟩ :=
      wrap_shown (by omega) (normal_of_normalize h.english) line (hmem line hline)
    exact ⟨hstart, hprint, by omega⟩
  obtain ⟨text, htext⟩ := prepareText_shown hnfkd hne (by omega) hshown
  have hidOk : validateExecutionId id = .ok id := if_pos ⟨length_pos_iff.mpr hid.1, hid.2.1, hid.2.2⟩
  have hslotOk : validatePage slot = .ok slot.toNat := if_pos ⟨hslot, hslots⟩
  have hcheck : Client.check nfkd (.prepare id slot page.text) = .ok (.prepare id slot.toNat text) := by
    simp only [Client.check, bind_ok, pure_ok]
    exact ⟨id, hidOk, slot.toNat, hslotOk, text, htext, rfl⟩
  obtain ⟨wire, hwire, -⟩ := request_ok (check_ok hcheck)
  exact ⟨_, wire, hcheck, hwire⟩

omit hnfkd

/-! ## Whole plans -/

theorem buildCaptionPlan_ok {chunks translations : List (List Char)}
    {executionId : List Char} {plan : CaptionPlan}
    (h : buildCaptionPlan nfkd chunks translations executionId maxColumns maxLines maxPages = .ok plan) :
    CheckedId executionId ∧ chunks.zip translations ≠ [] ∧ ∃ planned,
      planChunks nfkd maxColumns maxLines maxPages 0 (chunks.zip translations) = .ok planned ∧
        plan = ⟨executionId, maxColumns, maxLines, planned⟩ := by
  unfold buildCaptionPlan at h
  simp only [bind_ok, need_ok, pure_ok, decide_eq_true_eq] at h
  obtain ⟨id, hid, -, ⟨hchunks, htranslations⟩, planned, hplanned, rfl⟩ := h
  have hsame : id = executionId := by
    unfold validateExecutionId at hid
    split at hid
    · cases hid
      rfl
    · cases hid
  subst hsame
  refine ⟨validateExecutionId_ok hid, ?_, planned, hplanned, rfl⟩
  obtain ⟨chunk, chunks, rfl⟩ := exists_cons_of_ne_nil hchunks
  obtain ⟨translation, translations, rfl⟩ := exists_cons_of_ne_nil htranslations
  simp

/-- A plan is read back unchanged when no word of its translations is longer than a line; its pages can always be
shown. -/
theorem plan_loads {nfkd : List Char → List Char} (hnfkd : KeepsAscii nfkd) {chunks translations : List (List Char)}
    {executionId : List Char} {maxColumns maxLines maxPages : Int} {plan : CaptionPlan}
    (hplan : buildCaptionPlan nfkd chunks translations executionId maxColumns maxLines maxPages = .ok plan) :
    (loadPlan nfkd plan.toJson = .ok plan.toJson ↔ ∀ pair ∈ chunks.zip translations, WordsFit nfkd maxColumns pair.2) ∧
      ∀ chunk ∈ plan.chunks, ∀ page ∈ chunk.pages, ∀ slot : Int, 0 ≤ slot → slot < protocolPageSlots →
        ∃ request wire, Client.check nfkd (.prepare plan.executionId slot page.text) = .ok request ∧
          Client.request request = .ok wire := by
  obtain ⟨hid, hzip, planned, hplanned, rfl⟩ := buildCaptionPlan_ok hplan
  obtain ⟨hlength, hall⟩ := planChunks_planned hnfkd hplanned
  have hne : planned ≠ [] := by
    rintro rfl
    exact hzip (length_eq_zero_iff.mp hlength.symm)
  obtain ⟨first, hfirst⟩ := exists_mem_of_ne_nil planned hne
  obtain ⟨source, -, hsource⟩ := hall first hfirst
  constructor
  · have hfields : exactFields planKeys (CaptionPlan.toJson ⟨executionId, maxColumns, maxLines, planned⟩) =
        some [("v", .int 1), ("executionId", .str executionId), ("language", .str "en".toList),
          ("maxColumns", .int maxColumns), ("maxLines", .int maxLines), ("chunks", .arr (planned.map BilingualSpeechChunk.toJson))] := by
      simp [exactFields, planKeys, CaptionPlan.toJson, Json.fields?]
    have hobject : ∃ fields, (CaptionPlan.toJson ⟨executionId, maxColumns, maxLines, planned⟩).fields? = some fields :=
      ⟨_, rfl⟩
    have hidOk : validateExecutionId executionId = .ok executionId :=
      if_pos ⟨length_pos_iff.mpr hid.1, hid.2.1, hid.2.2⟩
    have hcolumns := hsource.columns
    have hlines := hsource.linesBound
    unfold loadPlan
    rw [hfields]
    simp [bind_ok, want_ok, need_ok, pure_ok, hobject, field, List.lookup, Json.number?, Json.pyStr, Json.str?, Json.int?,
      Json.items?, hidOk, hcolumns, hlines, hne, loadChunks_iff hnfkd hplanned, -bind_pure_comp]
  · intro chunk hchunk page hpage slot hslot hslots
    obtain ⟨pair, -, hpair⟩ := hall chunk hchunk
    exact prepare_planned hnfkd hpair hpage hid hslot hslots

theorem plan_loads_goodGame :
    loadPlan (fun text => text) (CaptionPlan.toJson ⟨"run:1".toList, 8, 2,
      [⟨0, "いい試合".toList, "A good game".toList, [⟨0, ["A good".toList, "game".toList]⟩]⟩]⟩) = .ok
        (CaptionPlan.toJson ⟨"run:1".toList, 8, 2,
          [⟨0, "いい試合".toList, "A good game".toList, [⟨0, ["A good".toList, "game".toList]⟩]⟩]⟩) := by
  have hplan : buildCaptionPlan (fun text => text) [" いい試合".toList] ["A  good\ngame".toList, "Next".toList]
      "run:1".toList 8 2 1 = .ok ⟨"run:1".toList, 8, 2,
        [⟨0, "いい試合".toList, "A good game".toList, [⟨0, ["A good".toList, "game".toList]⟩]⟩]⟩ := rfl
  refine (plan_loads (fun _ _ => rfl) hplan).1.mpr ?_
  intro pair hpair
  rw [mem_singleton.mp hpair]
  have htext : normalizeCaptionText (fun text => text) "A  good\ngame".toList =
      .ok ([' '].intercalate ["A".toList, "good".toList, "game".toList]) := rfl
  exact wordsFit_of_lines (by decide) htext (by decide)

/-- A word that is longer than a line is broken, and the reader refuses the plan. -/
theorem long_word_refused :
    ∃ plan, buildCaptionPlan (fun text => text) ["長い".toList] ["Aaaaaaaaaaaaaaaaaaaaaaaaaaaaaaaargh".toList]
        "run:1".toList 32 2 1 = .ok plan ∧
      (loadPlan (fun text => text) plan.toJson).isOk = false :=
  ⟨_, rfl, rfl⟩

end Docich.Captions
