import Docich.Fallible
import Docich.Overlay.Queue

/-!
# The overlay queue loses nothing it accepted

- `History`: what has become of every accepted event;
- `validate_fields`: an event that was written is valid again, with the same contents;
- `loadEvents_contentOf`: rows without unescaped line ends are read as they were written;
- `lossless`: after any calls, the queue lists the accepted events that are still in it;
- `lineSeparator_lost`: an event that is accepted and not listed.
-/

namespace Docich.Overlay

open List Wire

open Captions (splitlines splitlinesFrom isLineBreak)
open Wire (Json Dict isFalsy loads)

/-! ## What becomes of an event -/

/-- The contents of an event. -/
structure Entry where
  category : List Char
  title : List Char
  body : List Char
  level : List Char
  source_id : Option (List Char)
  deriving DecidableEq

def Event.entry (e : Event) : Entry :=
  { category := e.category, title := e.title, body := e.body, level := e.level, source_id := e.source_id }

inductive Fate
  | deleted
  | replaced
  | pushedOut

/-- An accepted event and what has become of it; none when it is in the queue. -/
structure Accepted where
  entry : Entry
  fate : Option Fate

/-- The accepted events, in the order of their calls. -/
abbrev History := List Accepted

def live (h : History) : List Entry := (h.filter fun a => a.fate = none).map Accepted.entry

/-- A later event with the same source id replaces an event. -/
def replaceBy (e : Entry) (a : Accepted) : Accepted :=
  if a.fate = none ∧ e.source_id ≠ none ∧ a.entry.source_id = e.source_id then { a with fate := some .replaced } else a

/-- Events with `keep` newer ones are pushed out. -/
def pushOut (keep : ℕ) : History → History
  | [] => []
  | a :: rest =>
    (if a.fate = none ∧ keep ≤ (live rest).length then { a with fate := some .pushedOut } else a) :: pushOut keep rest

def accept (keep : ℕ) (e : Entry) (h : History) : History := pushOut keep (h.map (replaceBy e) ++ [⟨e, none⟩])

/-- The event at this place of the queue is deleted. -/
def remove : ℕ → History → History
  | _, [] => []
  | i, a :: rest =>
    if a.fate = none then
      if i = 0 then { a with fate := some .deleted } :: rest else a :: remove (i - 1) rest
    else a :: remove i rest

/-- The contents of a row. -/
def entryOf (d : Dict) : Option Entry :=
  match d.get categoryKey, d.get titleKey, d.get bodyKey, d.get levelKey with
  | some (.string category), some (.string title), some (.string body), some (.string level) =>
    match d.get sourceIdKey with
    | none => some ⟨category, title, body, level, none⟩
    | some (.string id) => some ⟨category, title, body, level, some id⟩
    | _ => none
  | _, _, _, _ => none

/-! ## Runs -/

inductive Op
  | append (clock : ℕ → ℤ) (event : Dict)
  | delete (index : ℤ)

structure State where
  file : Option (List Char)
  history : History

/-- One call; a call that raises changes nothing. -/
def step (k : Conversions) (keep : ℤ) (s : State) : Op → State
  | .append clock event =>
    match validateEvent k (clock 0) event, appendEvent k clock keep event s.file with
    | .ok normalized, .ok (true, file) => { file := file, history := accept keep.toNat normalized.entry s.history }
    | _, .ok (_, file) => { s with file := file }
    | _, .error _ => s
  | .delete index =>
    match deleteEvent index s.file with
    | .ok (_, file) => { file := file, history := remove index.toNat s.history }
    | .error _ => s

def after (k : Conversions) (keep : ℤ) (ops : List Op) : State := ops.foldl (step k keep) { file := none, history := [] }

/-! ## The history -/

@[simp] theorem live_nil : live [] = [] := rfl

theorem live_cons (a : Accepted) (h : History) : live (a :: h) = (if a.fate = none then [a.entry] else []) ++ live h := by
  unfold live
  by_cases ha : a.fate = none <;> simp [ha]

theorem live_append (g h : History) : live (g ++ h) = live g ++ live h := by simp [live]

theorem live_pushOut (keep : ℕ) (h : History) : live (pushOut keep h) = lastRows keep (live h) := by
  induction h with
  | nil => simp [pushOut, lastRows]
  | cons a h ih =>
    rw [pushOut, live_cons, live_cons, ih]
    unfold lastRows
    by_cases ha : a.fate = none
    · simp only [ha, true_and, if_true, singleton_append, length_cons]
      by_cases hk : keep ≤ (live h).length
      · rw [if_pos hk, if_neg (by simp), nil_append,
          show (live h).length + 1 - keep = (live h).length - keep + 1 by omega, drop_succ_cons]
      · rw [if_neg hk, if_pos ha, show (live h).length + 1 - keep = 0 by omega,
          show (live h).length - keep = 0 by omega, drop_zero, drop_zero]
        rfl
    · simp [ha]

theorem live_replaceBy (e : Entry) (h : History) :
    live (h.map (replaceBy e)) = (live h).filter fun x => ¬ (e.source_id ≠ none ∧ x.source_id = e.source_id) := by
  induction h with
  | nil => rfl
  | cons a h ih =>
    rw [map_cons, live_cons, live_cons, ih, filter_append]
    congr 1
    by_cases ha : a.fate = none
    · by_cases hs : e.source_id ≠ none ∧ a.entry.source_id = e.source_id
      · have hreplaced : replaceBy e a = { a with fate := some .replaced } := if_pos ⟨ha, hs⟩
        rw [hreplaced, if_neg (by simp), if_pos ha, filter_cons_of_neg (by simp [hs]), filter_nil]
      · have hkept : replaceBy e a = a := if_neg fun h => hs h.2
        rw [hkept, if_pos ha, filter_eq_self.mpr]
        rintro x hx
        rw [mem_singleton.mp hx]
        exact decide_eq_true hs
    · have hkept : replaceBy e a = a := if_neg fun h => ha h.1
      rw [hkept, if_neg ha, filter_nil]

theorem live_accept (keep : ℕ) (e : Entry) (h : History) :
    live (accept keep e h) =
      lastRows keep (((live h).filter fun x => ¬ (e.source_id ≠ none ∧ x.source_id = e.source_id)) ++ [e]) := by
  rw [accept, live_pushOut, live_append, live_replaceBy]
  rfl

theorem live_remove (i : ℕ) (h : History) : live (remove i h) = (live h).eraseIdx i := by
  induction h generalizing i with
  | nil => simp [remove]
  | cons a h ih =>
    rw [remove]
    by_cases ha : a.fate = none
    · rw [if_pos ha]
      cases i with
      | zero => simp [live_cons, ha]
      | succ i => simp [live_cons, ha, ih]
    · rw [if_neg ha]
      simp [live_cons, ha, ih]

/-- The source ids of these entries differ. -/
def Distinct (entries : List Entry) : Prop := (entries.filterMap Entry.source_id).Nodup

theorem Distinct.sublist {l₁ l₂ : List Entry} (h : Distinct l₂) (hsub : l₁.Sublist l₂) : Distinct l₁ :=
  (hsub.filterMap Entry.source_id).nodup h

variable {h : History} {text id s : List Char} {c : Char} {β : Type} {event : Dict}
    {e normalized : Event} {clock : ℕ → ℤ} {keep : ℤ}

theorem distinct_accept (hd : Distinct (live h)) (keep : ℕ) (e : Entry) : Distinct (live (accept keep e h)) := by
  rw [live_accept]
  refine Distinct.sublist ?_ (drop_sublist _ _)
  set kept := (live h).filter fun x => ¬ (e.source_id ≠ none ∧ x.source_id = e.source_id) with hkept
  have hrest : Distinct kept := hd.sublist filter_sublist
  unfold Distinct at hrest ⊢
  rw [filterMap_append]
  cases hs : e.source_id with
  | none => simpa [hs] using hrest
  | some id =>
    have hnot : id ∉ kept.filterMap Entry.source_id := by
      intro hm
      obtain ⟨x, hx, hid⟩ := mem_filterMap.mp hm
      simp [hkept, hs, hid] at hx
    simp only [filterMap_cons, hs, filterMap_nil]
    rw [nodup_append]
    refine ⟨hrest, by simp, fun a ha b hb => ?_⟩
    rw [mem_singleton.mp hb]
    rintro rfl
    exact hnot ha

theorem distinct_remove (hd : Distinct (live h)) (i : ℕ) : Distinct (live (remove i h)) := by
  rw [live_remove]
  exact hd.sublist (eraseIdx_sublist _ _)

/-! ## Texts -/

theorem strip_of_ends (hhead : ∀ c, text.head? = some c → isSpace c = false)
    (hlast : ∀ c, text.getLast? = some c → isSpace c = false) : strip text = text := by
  have hdrop : ∀ l : List Char, (∀ c, l.head? = some c → isSpace c = false) → l.dropWhile isSpace = l := by
    intro l hl
    cases l with
    | nil => rfl
    | cons c l => simp [hl c rfl]
  unfold strip
  rw [hdrop text hhead, hdrop text.reverse (by rwa [List.head?_reverse]), reverse_reverse]

theorem head?_dropWhile {l : List Char} (h : (l.dropWhile isSpace).head? = some c) : isSpace c = false := by
  have := List.head?_dropWhile_not isSpace l
  rw [h] at this
  simpa using this

theorem strip_ends (text : List Char) :
    (∀ c, (strip text).head? = some c → isSpace c = false) ∧ ∀ c, (strip text).getLast? = some c → isSpace c = false := by
  unfold strip
  constructor
  · intro c hc
    rw [List.head?_reverse] at hc
    have hsuffix := dropWhile_suffix isSpace (l := (text.dropWhile isSpace).reverse)
    obtain ⟨init, hinit⟩ := hsuffix
    have hlast : (text.dropWhile isSpace).reverse.getLast? = some c := by
      rw [← hinit, List.getLast?_append, hc]
      rfl
    rw [List.getLast?_reverse] at hlast
    exact head?_dropWhile hlast
  · intro c hc
    rw [List.getLast?_reverse] at hc
    exact head?_dropWhile hc

theorem strip_strip (text : List Char) : strip (strip text) = strip text :=
  strip_of_ends (strip_ends text).1 (strip_ends text).2

theorem mem_strip (h : c ∈ strip text) : c ∈ text := by
  unfold strip at h
  rw [mem_reverse] at h
  have := (dropWhile_sublist isSpace).subset h
  rw [mem_reverse] at this
  exact (dropWhile_sublist isSpace).subset this

/-- A text that is kept as it is. -/
def Sanitized (text : List Char) (limit : ℕ) : Prop := sanitizeText text limit = .ok text

theorem sanitizeText_ok {value : List Char} {limit : ℕ} (h : sanitizeText value limit = .ok text) :
    Sanitized text limit ∧ ∀ c ∈ text, isControl c = false := by
  unfold sanitizeText at h
  split at h
  · cases h
  · next hcontrol =>
    split at h
    · cases h
    · next hlimit =>
      cases h
      have hall : ∀ c ∈ strip value, isControl c = false := by
        intro c hc
        rw [any_eq_true] at hcontrol
        exact Bool.eq_false_iff.mpr fun ht => hcontrol ⟨c, mem_strip hc, ht⟩
      refine ⟨?_, hall⟩
      unfold Sanitized sanitizeText
      rw [if_neg, strip_strip, if_neg hlimit]
      rw [any_eq_true]
      rintro ⟨c, hc, ht⟩
      rw [hall c hc] at ht
      cases ht

/-! ## Events that are kept -/

/-- What validation leaves of an event. -/
structure Event.Valid (e : Event) : Prop where
  category : e.category ∈ overlayCategories
  title : Sanitized e.title titleLimit
  title_ne : e.title ≠ []
  title_line : '\n' ∉ e.title ∧ '\r' ∉ e.title
  body : Sanitized e.body bodyLimit
  level : e.level ∈ levels
  source_id : ∀ id, e.source_id = some id → isSourceId id = true
  visible : (∀ c ∈ e.title, isControl c = false) ∧ ∀ c ∈ e.body, isControl c = false

export Fallible (bind_ok)

theorem check_bind {c : Bool} {e : OverlayQueueError} {f : Unit → Except OverlayQueueError β} {b : β}
    (h : (check c e >>= f) = .ok b) : c = true ∧ f () = .ok b := by
  cases c with
  | false => cases h
  | true => exact ⟨rfl, h⟩

theorem check_true {c : Bool} (h : c = true) (e : OverlayQueueError) (f : Unit → Except OverlayQueueError β) :
    (check c e >>= f) = f () := by
  rw [h]
  rfl

theorem levelOf_mem (level : List Char) : levelOf level ∈ levels := by
  simp only [levelOf]
  split
  · assumption
  · exact mem_cons_self

variable {k : Conversions} {events : List Event}

theorem sourceIdOf_ok {x : Option Json} {source_id : Option (List Char)}
    (h : sourceIdOf k x = .ok source_id) : ∀ id, source_id = some id → isSourceId id = true := by
  rintro id rfl
  cases x with
  | none => cases h
  | some x =>
    simp only [sourceIdOf] at h
    split at h
    · next hid =>
      cases h
      exact hid
    · cases h

theorem validateEvent_ok {now : ℤ} (h : validateEvent k now event = .ok e) : e.Valid := by
  obtain ⟨hcategory, h⟩ := check_bind h
  obtain ⟨title, htitle, h⟩ := bind_ok h
  obtain ⟨hne, h⟩ := check_bind h
  obtain ⟨hline, h⟩ := check_bind h
  obtain ⟨body, hbody, h⟩ := bind_ok h
  obtain ⟨source_id, hid, h⟩ := bind_ok h
  cases h
  exact {
    category := of_decide_eq_true hcategory
    title := (sanitizeText_ok htitle).1
    title_ne := of_decide_eq_true hne
    title_line := of_decide_eq_true hline
    body := (sanitizeText_ok hbody).1
    level := levelOf_mem _
    source_id := sourceIdOf_ok hid
    visible := ⟨(sanitizeText_ok htitle).2, (sanitizeText_ok hbody).2⟩ }

theorem strip_category : ∀ category ∈ overlayCategories, strip category = category := by decide

theorem strip_level : ∀ level ∈ levels, strip level = level := by decide

theorem isSourceIdChar_space (h : isSourceIdChar c = true) : isSpace c = false := by
  have hbound : 0x2d ≤ c.toNat ∧ c.toNat ≤ 0x7a := by
    simp only [isSourceIdChar, Char.isAlphanum, Char.isAlpha, Char.isUpper, Char.isLower, Char.isDigit, Bool.or_eq_true,
      Bool.and_eq_true, decide_eq_true_eq] at h
    rcases h with ((((((h | h) | h) | rfl) | rfl) | rfl) | rfl) | rfl
    · exact ⟨le_trans (by decide) h.1, le_trans h.2 (by decide)⟩
    · exact ⟨le_trans (by decide) h.1, le_trans h.2 (by decide)⟩
    · exact ⟨le_trans (by decide) h.1, le_trans h.2 (by decide)⟩
    all_goals decide
  simp only [isSpace, Bool.or_eq_false_iff, Bool.and_eq_false_iff, decide_eq_false_iff_not]
  omega

theorem strip_sourceId (h : isSourceId id = true) : strip id = id := by
  simp only [isSourceId, Bool.and_eq_true, all_eq_true] at h
  exact strip_of_ends (fun c hc => isSourceIdChar_space (h.2 c (mem_of_head? hc)))
    fun c hc => isSourceIdChar_space (h.2 c (mem_of_getLast? hc))

/-- The same event at another time. -/
def Event.at (e : Event) (current : ℤ) : Event := { e with ts := clampTs current e.ts }

/-- An event that was written is valid again, with the same contents. -/
theorem validate_fields (k : Conversions) (now : ℤ) (he : e.Valid) : validateEvent k now e.fields = .ok (e.at now) := by
  have hcategory : e.fields.get categoryKey = some (.string e.category) := rfl
  have htitle : e.fields.get titleKey = some (.string e.title) := rfl
  have hbody : e.fields.get bodyKey = some (.string e.body) := rfl
  have hlevel : e.fields.get levelKey = some (.string e.level) := rfl
  have hts : e.fields.get tsKey = some (.int e.ts) := rfl
  have hid : sourceIdOf k (e.fields.get sourceIdKey) = .ok e.source_id := by
    cases hs : e.source_id with
    | none =>
      have : e.fields.get sourceIdKey = none := by simp only [Event.fields, hs]; rfl
      rw [this]
      rfl
    | some id =>
      have hget : e.fields.get sourceIdKey = some (.string id) := by simp only [Event.fields, hs]; rfl
      have hvalid := he.source_id id hs
      have hne : id ≠ [] := by
        rintro rfl
        cases hvalid
      have hfalsy : isFalsy (.string id) = false := by
        cases id with
        | nil => exact absurd rfl hne
        | cons c id => rfl
      have htext : sourceText k (.string id) = id := by
        simp only [sourceText, hfalsy, Bool.false_eq_true, if_false, Conversions.strOf, strip_sourceId hvalid]
      simp only [hget, sourceIdOf, htext, hvalid, if_true]
  have hlevelOf : levelOf e.level = e.level := by simp only [levelOf, strip_level _ he.level, he.level, if_true]
  have ht := he.title
  have hb := he.body
  unfold Sanitized at ht hb
  unfold validateEvent
  simp only [hcategory, htitle, hbody, hlevel, hts, hid, Option.map_some, Option.getD_some, Conversions.strOf,
    strip_category _ he.category, hlevelOf, timeOf, Conversions.intOf, ht, hb]
  rw [check_true (decide_eq_true he.category)]
  simp only [bind, Except.bind, check, he.title_ne, he.title_line, ne_eq, not_false_eq_true, and_self, decide_true, if_true]
  rfl

/-! ## Lines -/

/-- A text that is one line. -/
def OneLine (text : List Char) : Prop := ∀ c ∈ text, isLineBreak c = false

instance (text : List Char) : Decidable (OneLine text) :=
  List.decidableBAll (fun c => isLineBreak c = false) text

def lineOf (d : Dict) : List Char := (Json.object d).dumps separators

theorem splitlinesFrom_line {line : List Char} (hline : OneLine line) (begun rest : List Char) :
    splitlinesFrom begun (line ++ '\n' :: rest) = (begun ++ line) :: splitlinesFrom [] rest := by
  induction line generalizing begun with
  | nil =>
    rw [nil_append, splitlinesFrom, if_pos (by decide), append_nil]
    exact fun _ => nofun
  | cons c line ih =>
    have hc := hline c mem_cons_self
    rw [cons_append, splitlinesFrom, if_neg (by simp [hc]), ih fun x hx => hline x (mem_cons_of_mem _ hx)]
    · simp
    · rintro text rfl
      cases hc

theorem readText_eq (h : '\r' ∉ text) : readText text = text := by
  induction text with
  | nil => rfl
  | cons c text ih =>
    have hc : c ≠ '\r' := fun he => h (he ▸ mem_cons_self)
    have hrest := ih fun hm => h (mem_cons_of_mem _ hm)
    unfold readText
    split
    · next heq =>
      cases heq
      exact absurd rfl hc
    · next heq =>
      cases heq
      exact absurd rfl hc
    · next heq =>
      cases heq
      rw [hrest]
    · next heq => cases heq

theorem contentOf_eq (rows : List Dict) : contentOf rows = rows.flatMap fun d => lineOf d ++ ['\n'] := by
  unfold contentOf
  cases rows with
  | nil => rfl
  | cons d rows =>
    induction rows generalizing d with
    | nil => simp [lineOf, List.intercalate]
    | cons d' rows ih =>
      have hrest := ih d'
      simp only [map_cons, cons_ne_nil, if_false, flatMap_cons, List.intercalate,
        intersperse_cons_cons, flatten_cons, append_assoc] at hrest ⊢
      rw [hrest]
      rfl

theorem strip_ne_nil (hc : isSpace c = false) (text : List Char) : strip (c :: text) ≠ [] := by
  unfold strip
  rw [dropWhile_cons, if_neg (by simp [hc])]
  intro h
  rw [reverse_eq_nil_iff, dropWhile_eq_nil_iff] at h
  have := h c (mem_reverse.mpr mem_cons_self)
  rw [hc] at this
  cases this

/-- A row that is read as it was written. -/
structure Readable (d : Dict) : Prop where
  line : OneLine (lineOf d)
  read : loads (lineOf d) = some (.object d)

theorem strip_lineOf (d : Dict) : strip (lineOf d) ≠ [] := by
  exact strip_ne_nil (by decide) _

/-- Rows are read as they were written. -/
theorem loadEvents_contentOf {rows : List Dict} (h : ∀ d ∈ rows, Readable d) : loadEvents (some (contentOf rows)) = rows := by
  have hlines : splitlines (contentOf rows) = rows.map lineOf := by
    rw [contentOf_eq]
    unfold splitlines
    induction rows with
    | nil => rfl
    | cons d rows ih =>
      rw [flatMap_cons, append_assoc, singleton_append,
        splitlinesFrom_line (h d mem_cons_self).line, ih fun d' hd => h d' (mem_cons_of_mem _ hd)]
      rfl
  have hreturn : '\r' ∉ contentOf rows := by
    rw [contentOf_eq, mem_flatMap]
    rintro ⟨d, hd, hc⟩
    rw [mem_append, mem_singleton] at hc
    rcases hc with hc | hc
    · exact absurd ((h d hd).line _ hc) (by decide)
    · cases hc
  simp only [loadEvents, readText_eq hreturn, hlines, filterMap_map]
  rw [filterMap_congr (g := some), filterMap_some]
  intro d hd
  simp only [Function.comp_apply, if_neg (strip_lineOf d), (h d hd).read]

/-! ## Rows of events -/

/-- The text has none of the ends of lines that `json.dumps` writes as they are: U+0085, U+2028, U+2029. -/
def Unbroken (text : List Char) : Prop := ∀ c ∈ text, c.toNat ≠ 0x85 ∧ c.toNat ≠ 0x2028 ∧ c.toNat ≠ 0x2029

instance (text : List Char) : Decidable (Unbroken text) :=
  List.decidableBAll (fun c : Char => c.toNat ≠ 0x85 ∧ c.toNat ≠ 0x2028 ∧ c.toNat ≠ 0x2029) text

def Event.Clean (e : Event) : Prop := Unbroken e.title ∧ Unbroken e.body

theorem isLineBreak_hexDigit : ∀ n < 16, isLineBreak (Wire.hexDigit n) = false := by decide

theorem oneLine_escape (h : 0x20 ≤ c.toNat → isLineBreak c = false) : OneLine (Wire.escape c) := by
  unfold Wire.escape
  split
  · decide
  · split
    · decide
    · split
      · decide
      · split
        · decide
        · split
          · decide
          · split
            · decide
            · split
              · decide
              · split
                · next hc =>
                  have h1 := isLineBreak_hexDigit (c.toNat / 16) (by omega)
                  have h2 := isLineBreak_hexDigit (c.toNat % 16) (by omega)
                  intro x hx
                  simp only [mem_cons, not_mem_nil, or_false] at hx
                  rcases hx with rfl | rfl | rfl | rfl | rfl | rfl
                  · decide
                  · decide
                  · decide
                  · decide
                  · exact h1
                  · exact h2
                · next hc =>
                  intro x hx
                  rw [mem_singleton] at hx
                  subst hx
                  exact h (by omega)

theorem oneLine_append {t : List Char} (hs : OneLine s) (ht : OneLine t) : OneLine (s ++ t) := by
  intro c hc
  rcases mem_append.mp hc with hc | hc
  · exact hs c hc
  · exact ht c hc

theorem oneLine_quoted (h : ∀ c ∈ s, 0x20 ≤ c.toNat → isLineBreak c = false) : OneLine (Wire.quoted s) := by
  intro c hc
  simp only [Wire.quoted, mem_cons, mem_append, mem_flatMap, not_mem_nil, or_false] at hc
  rcases hc with rfl | ⟨x, hx, hc⟩ | rfl
  · decide
  · exact oneLine_escape (h x hx) c hc
  · decide

theorem oneLine_numerals (h : ∀ c ∈ s, Wire.isNumeral c = true) : OneLine s := by
  intro c hc
  have hb := isNumeral_bounds (h c hc)
  simp only [isLineBreak, Bool.or_eq_false_iff, Bool.and_eq_false_iff, decide_eq_false_iff_not]
  omega

theorem oneLine_intText (n : ℤ) : OneLine (Wire.intText n) := by
  cases n with
  | ofNat n => exact oneLine_numerals (isNumeral_digitsOf n)
  | negSucc n => exact oneLine_append (s := ['-']) (by decide) (oneLine_numerals (isNumeral_digitsOf (n + 1)))

theorem oneLine_fields (fields : Dict) (h : ∀ f ∈ fields, OneLine (Wire.quoted f.1) ∧ OneLine (f.2.dumps separators)) :
    OneLine (Wire.dumpsFields separators fields) := by
  match fields with
  | [] => exact nofun
  | [(key, x)] =>
    obtain ⟨hkey, hx⟩ := h _ mem_cons_self
    exact oneLine_append (oneLine_append hkey (by decide)) hx
  | (key, x) :: f :: fields =>
    obtain ⟨hkey, hx⟩ := h _ mem_cons_self
    have hrest := oneLine_fields (f :: fields) fun g hg => h g (mem_cons_of_mem _ hg)
    exact oneLine_append (oneLine_append (oneLine_append (oneLine_append hkey (by decide)) hx) (by decide)) hrest

theorem isLineBreak_unbroken (h : Unbroken s) : ∀ c ∈ s, 0x20 ≤ c.toNat → isLineBreak c = false := by
  intro c hc hge
  obtain ⟨h1, h2, h3⟩ := h c hc
  simp only [isLineBreak, Bool.or_eq_false_iff, Bool.and_eq_false_iff, decide_eq_false_iff_not]
  omega

theorem unbroken_category : ∀ category ∈ overlayCategories, Unbroken category := by decide

theorem unbroken_level : ∀ level ∈ levels, Unbroken level := by decide

theorem unbroken_sourceId (h : isSourceId id = true) : Unbroken id := by
  simp only [isSourceId, Bool.and_eq_true, all_eq_true] at h
  intro c hc
  have := isSourceIdChar_space (h.2 c hc)
  simp only [isSpace, Bool.or_eq_false_iff, Bool.and_eq_false_iff, decide_eq_false_iff_not] at this
  omega

def keys : List (List Char) := [tsKey, categoryKey, titleKey, bodyKey, levelKey, sourceIdKey]

theorem oneLine_keys : ∀ key ∈ keys, OneLine (Wire.quoted key) := by decide

theorem nodup_keys : (e.fields.map Prod.fst).Nodup := by
  have hprefix : e.fields.map Prod.fst <+: keys := by
    cases hs : e.source_id with
    | none => exact ⟨[sourceIdKey], by simp [Event.fields, hs, keys]⟩
    | some id => exact ⟨[], by simp [Event.fields, hs, keys]⟩
  exact hprefix.sublist.nodup (by decide)

/-- The row of a clean event is read as it was written. -/
theorem Event.Valid.readable (he : e.Valid) (hc : e.Clean) : Readable e.fields where
  line := by
    have hstring : ∀ {s : List Char}, Unbroken s → OneLine (Wire.Json.dumps separators (.string s)) := by
      intro s hs
      exact oneLine_quoted (isLineBreak_unbroken hs)
    have hint : OneLine (Wire.Json.dumps separators (.int e.ts)) := by
      exact oneLine_intText e.ts
    have hfields : OneLine (Wire.dumpsFields separators e.fields) := by
      refine oneLine_fields _ fun f hf => ?_
      simp only [Event.fields, mem_append, mem_cons, not_mem_nil, or_false, Option.mem_toList,
        Option.map_eq_some_iff] at hf
      rcases hf with (rfl | rfl | rfl | rfl | rfl) | ⟨id, hid, rfl⟩
      · exact ⟨oneLine_keys tsKey (by decide), hint⟩
      · exact ⟨oneLine_keys categoryKey (by decide), hstring (unbroken_category _ he.category)⟩
      · exact ⟨oneLine_keys titleKey (by decide), hstring hc.1⟩
      · exact ⟨oneLine_keys bodyKey (by decide), hstring hc.2⟩
      · exact ⟨oneLine_keys levelKey (by decide), hstring (unbroken_level _ he.level)⟩
      · exact ⟨oneLine_keys sourceIdKey (by decide), hstring (unbroken_sourceId (he.source_id id hid))⟩
    exact oneLine_append (s := ['{']) (by decide) (oneLine_append hfields (by decide))
  read := by
    have hblank : ∀ c ∈ [' '], Wire.isBlank c = true := by simp [Wire.isBlank]
    refine loads_dumps ⟨⟨[' '], rfl, hblank⟩, [' '], rfl, hblank⟩ ?_
    have hplain : Wire.PlainFields e.fields := by
      cases hs : e.source_id <;> simp [Event.fields, hs, Wire.PlainFields, Json.Plain]
    exact ⟨hplain, nodup_keys⟩

/-! ## What the queue holds -/

/-- The queue holds these events, and they are the live ones of the history. -/
structure Holds (s : State) (events : List Event) : Prop where
  file : s.file = none ∧ events = [] ∨ s.file = some (contentOf (events.map Event.fields))
  valid : ∀ e ∈ events, e.Valid
  clean : ∀ e ∈ events, e.Clean
  entries : events.map Event.entry = live s.history
  distinct : Distinct (live s.history)

theorem Holds.loadEvents {s : State} (h : Holds s events) : Overlay.loadEvents s.file = events.map Event.fields := by
  rcases h.file with ⟨hfile, rfl⟩ | hfile
  · rw [hfile]
    rfl
  · rw [hfile]
    refine loadEvents_contentOf fun d hd => ?_
    obtain ⟨e, he, rfl⟩ := mem_map.mp hd
    exact (h.valid e he).readable (h.clean e he)

theorem entryOf_fields (e : Event) : entryOf e.fields = some e.entry := by
  have hid : e.fields.get sourceIdKey = e.source_id.map Json.string := by
    cases hs : e.source_id <;> simp only [Event.fields, hs] <;> rfl
  unfold entryOf
  rw [show e.fields.get categoryKey = some (.string e.category) from rfl,
    show e.fields.get titleKey = some (.string e.title) from rfl,
    show e.fields.get bodyKey = some (.string e.body) from rfl,
    show e.fields.get levelKey = some (.string e.level) from rfl, hid]
  cases hs : e.source_id <;> simp [Event.entry, hs]

/-- The same events, each at a time that is near the current one. -/
def retimed (clock : ℕ → ℤ) (events : List Event) : List Event := events.zipIdx.map fun e => e.1.at (clock (e.2 + 1))

/-- The rows as an append sees them: the same events at other times. -/
theorem revalidate_fields (k : Conversions) (clock : ℕ → ℤ) (h : ∀ e ∈ events, e.Valid) :
    revalidate k clock (events.map Event.fields) = retimed clock events := by
  unfold revalidate retimed
  rw [zipIdx_map, filterMap_map, ← filterMap_eq_map']
  refine filterMap_congr fun p hp => ?_
  have hvalid := h p.1 (fst_mem_of_mem_zipIdx hp)
  simp only [Function.comp_apply, Prod.map_fst, Prod.map_snd, id_eq, validate_fields k _ hvalid, Except.toOption]

section Retimed

variable {clock : ℕ → ℤ} {events : List Event}

theorem map_retimed {α : Type} {f : Event → α} (hf : ∀ e current, f (e.at current) = f e) :
    (retimed clock events).map f = events.map f := by
  have hcomp : (f ∘ fun e : Event × ℕ => e.1.at (clock (e.2 + 1))) = f ∘ Prod.fst := funext fun e => hf e.1 _
  rw [retimed, map_map, hcomp, ← map_map, zipIdx_map_fst]

theorem mem_retimed {e : Event} (h : e ∈ retimed clock events) : ∃ e' ∈ events, ∃ current, e = e'.at current := by
  obtain ⟨p, hp, rfl⟩ := mem_map.mp h
  exact ⟨p.1, fst_mem_of_mem_zipIdx hp, _, rfl⟩

theorem Event.Valid.at {e : Event} (he : e.Valid) (current : ℤ) : (e.at current).Valid :=
  { he with }

end Retimed

/-- The rows that are written are the live events of the history. -/
theorem appended_entries {keep : ℕ} {existing records : List Event}
    (hentries : existing.map Event.entry = live h) (happended : appended keep normalized existing = some records) :
    records.map Event.entry = live (accept keep normalized.entry h) ∧
      ∀ e ∈ records, e ∈ existing ∨ e = normalized := by
  have hlast : ∀ l : List Event, (lastRows keep l).map Event.entry = lastRows keep (l.map Event.entry) := by
    intro l
    simp only [lastRows, map_drop, length_map]
  rw [live_accept, ← hentries]
  unfold appended at happended
  cases hs : normalized.source_id with
  | none =>
    simp only [hs] at happended
    split at happended
    · cases happended
    · cases happended
      have hall : ((existing.map Event.entry).filter fun x =>
          ¬ (normalized.entry.source_id ≠ none ∧ x.source_id = normalized.entry.source_id)) =
            existing.map Event.entry := by
        rw [filter_eq_self]
        intro x _
        simp [Event.entry, hs]
      rw [hall, hlast, map_append]
      refine ⟨rfl, fun e he => ?_⟩
      simpa using mem_of_mem_drop he
  | some id =>
    simp only [hs] at happended
    split at happended
    · cases happended
    · cases happended
      have hfilter : ((existing.map Event.entry).filter fun x =>
          ¬ (normalized.entry.source_id ≠ none ∧ x.source_id = normalized.entry.source_id)) =
            (existing.filter fun e => e.source_id ≠ some id).map Event.entry := by
        rw [filter_map]
        congr 1
        refine filter_congr fun e _ => ?_
        by_cases he : e.source_id = some id <;> simp [Event.entry, hs, he]
      rw [hfilter, hlast, map_append]
      refine ⟨rfl, fun e he => ?_⟩
      have := mem_of_mem_drop he
      simp only [mem_append, mem_filter, mem_singleton] at this
      rcases this with h | h
      · exact .inl h.1
      · exact .inr h

/-- Every event that this call can accept is clean. -/
def Op.Clean (k : Conversions) : Op → Prop
  | .append clock event => ∀ e, validateEvent k (clock 0) event = .ok e → e.Clean
  | .delete _ => True

/-- What an append answers and writes over the queue. -/
theorem appendEvent_eq {s : State}
    (hs : Holds s events) (hv : validateEvent k (clock 0) event = .ok normalized) (hkeep : 0 < keep) :
    appendEvent k clock keep event s.file = match appended keep.toNat normalized (retimed clock events) with
      | none => .ok (false, s.file)
      | some records => .ok (true, some (contentOf (records.map Event.fields))) := by
  unfold appendEvent
  rw [hv, hs.loadEvents, revalidate_fields k clock hs.valid]
  change (check (decide (0 < keep)) .keep >>= _) = _
  rw [check_true (decide_eq_true hkeep)]
  rfl

theorem appendEvent_error (file : Option (List Char))
    (h : ∀ e, validateEvent k (clock 0) event = .ok e → keep ≤ 0) : ∃ e, appendEvent k clock keep event file = .error e := by
  unfold appendEvent
  cases hv : validateEvent k (clock 0) event with
  | error e => exact ⟨e, rfl⟩
  | ok normalized =>
    refine ⟨.keep, ?_⟩
    change (check (decide (0 < keep)) .keep >>= _) = _
    rw [decide_eq_false (by have := h normalized hv; omega)]
    rfl

theorem step_append {s : State}
    (hs : Holds s events) (hc : (Op.append clock event).Clean k) :
    ∃ events', Holds (step k keep s (.append clock event)) events' := by
  simp only [step]
  by_cases hraise : ∀ e, validateEvent k (clock 0) event = .ok e → keep ≤ 0
  · obtain ⟨e, he⟩ := appendEvent_error s.file hraise
    exact ⟨events, by split <;> simp_all⟩
  · push Not at hraise
    obtain ⟨normalized, hv, hkeep⟩ := hraise
    rw [appendEvent_eq hs hv hkeep, hv]
    cases happ : appended keep.toNat normalized (retimed clock events) with
    | none => exact ⟨events, hs⟩
    | some records =>
      have hretimed : (retimed clock events).map Event.entry = live s.history := by
        rw [map_retimed fun _ _ => rfl, hs.entries]
      obtain ⟨hentries, hmem⟩ := appended_entries hretimed happ
      have hvalid : ∀ e ∈ records, e.Valid ∧ e.Clean := by
        intro e he
        rcases hmem e he with hold | rfl
        · obtain ⟨e', he', current, rfl⟩ := mem_retimed hold
          exact ⟨(hs.valid e' he').at current, hs.clean e' he'⟩
        · exact ⟨validateEvent_ok hv, hc e hv⟩
      exact ⟨records, {
        file := .inr rfl
        valid := fun e he => (hvalid e he).1
        clean := fun e he => (hvalid e he).2
        entries := hentries
        distinct := distinct_accept hs.distinct _ _ }⟩

theorem step_delete {index : ℤ} {s : State} (hs : Holds s events) :
    ∃ events', Holds (step k keep s (.delete index)) events' := by
  simp only [step, deleteEvent, hs.loadEvents]
  by_cases hindex : index < 0 ∨ index ≥ (events.map Event.fields).length
  · rw [if_pos hindex]
    exact ⟨events, hs⟩
  · rw [if_neg hindex, eraseIdx_map]
    have hsub := eraseIdx_sublist events index.toNat
    exact ⟨events.eraseIdx index.toNat, {
      file := .inr rfl
      valid := fun e he => hs.valid e (hsub.subset he)
      clean := fun e he => hs.clean e (hsub.subset he)
      entries := by rw [← eraseIdx_map, hs.entries, live_remove]
      distinct := distinct_remove hs.distinct _ }⟩

theorem holds_after (keep : ℤ) {ops : List Op} (hclean : ∀ op ∈ ops, op.Clean k) :
    ∃ events, Holds (after k keep ops) events := by
  induction ops using List.reverseRecOn with
  | nil => exact ⟨[], ⟨.inl ⟨rfl, rfl⟩, nofun, nofun, rfl, nodup_nil⟩⟩
  | append_singleton ops op ih =>
    obtain ⟨events, hs⟩ := ih fun op hop => hclean op (mem_append_left _ hop)
    have hc := hclean op (mem_append_right _ (mem_singleton_self op))
    simp only [after, foldl_append, foldl_cons, foldl_nil] at hs ⊢
    cases op with
    | append clock event => exact step_append hs hc
    | delete index => exact step_delete hs

/-- After calls that accept no line end inside a title or a body, the rows that are read are the accepted events that
were not deleted, replaced or pushed out, in order; their source ids differ; a call that answers False writes nothing. -/
theorem lossless (k : Conversions) (keep : ℤ) (ops : List Op) (hclean : ∀ op ∈ ops, op.Clean k) :
    (loadEvents (after k keep ops).file).map entryOf = (live (after k keep ops).history).map some ∧
    Distinct (live (after k keep ops).history) ∧
    ∀ clock event file, appendEvent k clock keep event (after k keep ops).file = .ok (false, file) →
      file = (after k keep ops).file := by
  obtain ⟨events, hs⟩ := holds_after keep hclean
  refine ⟨?_, hs.distinct, ?_⟩
  · rw [hs.loadEvents, map_map, ← hs.entries, map_map]
    exact map_congr_left fun e _ => entryOf_fields e
  · intro clock event file happ
    obtain ⟨normalized, -, happ⟩ := bind_ok happ
    obtain ⟨-, happ⟩ := check_bind happ
    split at happ
    · cases happ
      rfl
    · cases happ

/-- Conversions of an event that has only strings. -/
def noConversions : Conversions where
  str := fun _ => []
  int := fun _ => none

def gameEvent (title : List Char) (source_id : List Char) : Dict :=
  [(categoryKey, .string ['g', 'a', 'm', 'e']), (titleKey, .string title), (sourceIdKey, .string source_id)]

theorem Op.clean_append (hv : validateEvent k (clock 0) event = .ok e) (hc : e.Clean) : (Op.append clock event).Clean k := by
  intro e' he'
  rw [hv] at he'
  cases he'
  exact hc

instance (e : Event) : Decidable e.Clean := inferInstanceAs (Decidable (Unbroken e.title ∧ Unbroken e.body))

/-- Two events with one source id, then a deletion. -/
theorem lossless_replaced :
    (loadEvents (after noConversions 2 [.append (fun _ => 0) (gameEvent ['a'] ['x']),
      .append (fun _ => 5) (gameEvent ['b'] ['x']), .append (fun _ => 9) (gameEvent ['c'] ['y']), .delete 1]).file).map
        entryOf =
      (live (after noConversions 2 [.append (fun _ => 0) (gameEvent ['a'] ['x']),
        .append (fun _ => 5) (gameEvent ['b'] ['x']), .append (fun _ => 9) (gameEvent ['c'] ['y']), .delete 1]).history).map
          some := by
  refine (lossless noConversions 2 _ fun op hop => ?_).1
  simp only [mem_cons, not_mem_nil, or_false] at hop
  rcases hop with rfl | rfl | rfl | rfl
  · exact Op.clean_append (e := ⟨0, ['g', 'a', 'm', 'e'], ['a'], [], info, some ['x']⟩) (by decide) (by decide)
  · exact Op.clean_append (e := ⟨5, ['g', 'a', 'm', 'e'], ['b'], [], info, some ['x']⟩) (by decide) (by decide)
  · exact Op.clean_append (e := ⟨9, ['g', 'a', 'm', 'e'], ['c'], [], info, some ['y']⟩) (by decide) (by decide)
  · trivial

/-- A title with a line separator inside is accepted, written as one line and read as two. -/
theorem lineSeparator_lost :
    appendEvent noConversions (fun _ => 0) 180 (gameEvent ['a', '\u2028', 'b'] ['x']) none =
        .ok (true, (after noConversions 180 [.append (fun _ => 0) (gameEvent ['a', '\u2028', 'b'] ['x'])]).file) ∧
    (loadEvents (after noConversions 180 [.append (fun _ => 0) (gameEvent ['a', '\u2028', 'b'] ['x'])]).file).map entryOf = [] ∧
    live (after noConversions 180 [.append (fun _ => 0) (gameEvent ['a', '\u2028', 'b'] ['x'])]).history =
      [⟨['g', 'a', 'm', 'e'], ['a', '\u2028', 'b'], [], info, some ['x']⟩] := by
  decide

end Docich.Overlay
