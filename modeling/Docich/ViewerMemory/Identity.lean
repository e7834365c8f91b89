import Docich.Overlay.Lossless
import Docich.ViewerMemory.Commit

/-!
# The identity of a staged event

- `Visible`: a text that is not blank stays so when it is collapsed;
- `Remembered`: what `parse_batch` says of a comment that is remembered;
- `accepted_iff`: an event passes the checks if and only if the key by name survives normalizing the name again.
-/

namespace Docich.ViewerMemory

open List Option

open Overlay (isSpace strip)

variable {u : Unicode} {sha256 : Text → Text} {cards : Text → Option CardMatch}

/-! ## Collapsed texts -/

def Visible (text : Text) : Prop := ∃ c ∈ text, isSpace c = false

variable {text source : Text} {c : ViewerComment} {entry : Option Entry} {excluded : List Text}

theorem Visible.ne_nil (h : Visible text) : text ≠ [] := by
  obtain ⟨c, hc, -⟩ := h
  exact ne_nil_of_mem hc

theorem mem_dropWhile_space {c : Char} (hc : c ∈ text) (hspace : isSpace c = false) : c ∈ text.dropWhile isSpace := by
  induction text with
  | nil => cases hc
  | cons d text ih =>
    by_cases hd : isSpace d = true
    · rw [dropWhile_cons_of_pos hd]
      rcases mem_cons.mp hc with rfl | hc
      · rw [hd] at hspace
        cases hspace
      · exact ih hc
    · rwa [dropWhile_cons_of_neg hd]

theorem visible_strip (h : Visible text) : Visible (strip text) := by
  obtain ⟨c, hc, hspace⟩ := h
  refine ⟨c, ?_, hspace⟩
  unfold strip
  rw [mem_reverse]
  exact mem_dropWhile_space (mem_reverse.mpr (mem_dropWhile_space hc hspace)) hspace

theorem visible_of_strip (h : strip text ≠ []) : Visible (strip text) := by
  obtain ⟨c, hc⟩ : ∃ c, (strip text).head? = some c := by
    cases hstrip : strip text with
    | nil => exact absurd hstrip h
    | cons c rest => exact ⟨c, rfl⟩
  exact ⟨c, mem_of_mem_head? hc, (Overlay.strip_ends text).1 c hc⟩

theorem visible_squeeze (h : Visible text) (after : Bool) : Visible (squeezeFrom after text) := by
  induction text generalizing after with
  | nil =>
    obtain ⟨c, hc, -⟩ := h
    cases hc
  | cons d text ih =>
    have htail : isSpace d = true → Visible text := by
      intro hd
      obtain ⟨c, hc, hspace⟩ := h
      rcases mem_cons.mp hc with rfl | hc
      · rw [hd] at hspace
        cases hspace
      · exact ⟨c, hc, hspace⟩
    rw [squeezeFrom]
    split_ifs with hd hafter
    · exact ih (htail hd) true
    · obtain ⟨c, hc, hspace⟩ := ih (htail hd) true
      exact ⟨c, mem_cons_of_mem _ hc, hspace⟩
    · exact ⟨d, mem_cons_self, by simpa using hd⟩

theorem visible_ellipsis (text : Text) : Visible (text ++ ['…']) :=
  ⟨'…', mem_append_right _ mem_cons_self, by decide⟩

theorem visible_nfkc (h : Visible text) : Visible (u.nfkc text) := by
  by_contra hnone
  obtain ⟨c, hc, hspace⟩ := h
  have hblank : ∀ c ∈ u.nfkc text, isSpace c = true := by
    intro c hc
    by_contra hno
    exact hnone ⟨c, hc, by simpa using hno⟩
  rw [u.nfkc_blank text hblank c hc] at hspace
  cases hspace

theorem visible_collapse (h : Visible text) (limit : ℕ) : Visible (_collapse u text limit) := by
  unfold _collapse
  dsimp only
  split_ifs
  · exact visible_ellipsis _
  · exact visible_strip (visible_squeeze (visible_nfkc h) false)

variable {limit : ℕ} {value : Text} {preserve : Bool} {comments : List ViewerComment}

theorem visible_of_collapse (h : _collapse u text limit ≠ []) : Visible (_collapse u text limit) := by
  unfold _collapse at h ⊢
  dsimp only at h ⊢
  split_ifs at h ⊢
  · exact visible_ellipsis _
  · exact visible_of_strip h

/-! ## Tokens -/

theorem token_char {c : Char} (h : isToken c = true) : isAscii c = true ∧ isSpace c = false := by
  unfold isToken at h
  simp only [Bool.or_eq_true, Bool.and_eq_true, decide_eq_true_eq, mem_cons, not_mem_nil, or_false] at h
  rcases h with ((h | h) | h) | h
  · simp only [isAscii, isSpace]
    grind
  · simp only [isAscii, isSpace]
    grind
  · simp only [isAscii, isSpace]
    grind
  · rcases h with rfl | rfl | rfl | rfl | rfl <;> decide

theorem squeeze_token (h : ∀ c ∈ text, isSpace c = false) : squeezeFrom false text = text := by
  induction text with
  | nil => rfl
  | cons c text ih =>
    rw [squeezeFrom, if_neg (by rw [h c mem_cons_self]; decide), ih fun d hd => h d (mem_cons_of_mem c hd)]

theorem collapse_token (h : ∀ c ∈ text, isToken c = true) (hlength : text.length ≤ limit) :
    _collapse u text limit = text := by
  have hspace : ∀ c ∈ text, isSpace c = false := fun c hc => (token_char (h c hc)).2
  have hstrip : strip text = text := Overlay.strip_of_ends
    (fun c hc => hspace c (mem_of_mem_head? hc)) fun c hc => hspace c (mem_of_mem_getLast? hc)
  unfold _collapse
  rw [u.nfkc_ascii text fun c hc => (token_char (h c hc)).1, squeeze_token hspace, hstrip, if_neg (by omega)]

theorem mem_clean {c : Char} (h : c ∈ _clean_metadata_token value limit) : isToken c = true :=
  (mem_filter.mp (mem_of_mem_take h)).2

theorem length_clean (value : Text) (limit : ℕ) : (_clean_metadata_token value limit).length ≤ limit := length_take_le _ _

theorem clean_clean (value : Text) (limit : ℕ) :
    _clean_metadata_token (_clean_metadata_token value limit) limit = _clean_metadata_token value limit := by
  have hfilter : (_clean_metadata_token value limit).filter isToken = _clean_metadata_token value limit :=
    filter_eq_self.mpr fun c hc => mem_clean hc
  rw [_clean_metadata_token, hfilter, take_of_length_le (length_clean value limit)]

/-! ## Sources and keys -/

theorem source_known (h : value ∈ unknown :: VALID_SOURCES) : _source u value = value := by
  have hstrip : ∀ w ∈ unknown :: VALID_SOURCES, strip w = w := by decide
  have hascii : ∀ w ∈ unknown :: VALID_SOURCES, (w.all fun c => isAscii c && !isCapital c) = true := by decide
  have hfold : u.casefold value = value := u.casefold_ascii value fun c hc => by
    simpa using all_eq_true.mp (hascii value h) c hc
  unfold _source
  rw [hstrip value h, hfold]
  rcases mem_cons.mp h with rfl | h
  · exact ite_self _
  · exact if_pos h

theorem source_mem (value : Text) : _source u value ∈ unknown :: VALID_SOURCES := by
  unfold _source
  dsimp only
  split_ifs with h
  · exact mem_cons_of_mem _ h
  · exact mem_cons_self

theorem source_source (value : Text) : _source u (_source u value) = _source u value := source_known (source_mem value)

theorem source_ne_nil (value : Text) : _source u value ≠ [] := by
  have h := source_mem (u := u) value
  intro hnil
  rw [hnil] at h
  revert h
  decide

theorem key_source (source normalized_name stable_id : Text) :
    viewer_key u sha256 (_source u source) normalized_name stable_id = viewer_key u sha256 source normalized_name stable_id := by
  simp only [viewer_key, source_source]

theorem key_ne_nil (source normalized_name stable_id : Text) : viewer_key u sha256 source normalized_name stable_id ≠ [] := by
  unfold viewer_key
  simp

theorem key_stable {stable_id : Text} (h : stable_id ≠ []) (source name name' : Text) :
    viewer_key u sha256 source name stable_id = viewer_key u sha256 source name' stable_id := by
  simp only [viewer_key, identityOf, if_pos h]

/-! ## Comments -/

/-- What is said of a comment that is remembered. -/
structure Remembered (u : Unicode) (sha256 : Text → Text) (source : Text) (entry : Option Entry) (c : ViewerComment) : Prop where
  source_eq : c.source = _source u source
  key : c.key = viewer_key u sha256 source c.normalized_name c.stable_id
  fallback : c.fallback_key = viewer_key u sha256 source c.normalized_name []
  name : Visible c.display_name
  normalized : c.normalized_name ≠ []
  comment : Visible c.comment
  token : c.stable_id = _clean_metadata_token c.stable_id 160
  /-- The viewer of a plain comment is the one that the row of its line identifies. -/
  row : c.kind = .comment → ∃ e, entry = some e ∧ c.stable_id = _clean_metadata_token e.stable_id 160 ∧ c.stable_id ≠ []

theorem remembered_card {message_id : Text} {found : CardMatch}
    (h : cardComment u sha256 source excluded message_id found = some c) : Remembered u sha256 source entry c := by
  unfold cardComment at h
  dsimp only at h
  split at h
  case isFalse => cases h
  case isTrue hok =>
    obtain rfl := some.inj h
    refine ⟨rfl, rfl, rfl, visible_of_collapse hok.1, hok.2.1, visible_collapse ?_ 600, rfl, nofun⟩
    exact ⟨'を', by simp [acquired], by decide⟩

theorem mem_identified {name name' : Text} {e : Entry} (h : identified u entry name name' = some e) :
    entry = some e := (filter_eq_some_iff.mp h).1

theorem remembered_plain {display raw_name raw_comment : Text}
    (h : plainComment u sha256 source excluded preserve entry display raw_name raw_comment = some c) (hc : c.rememberable = true) :
    Remembered u sha256 source entry c := by
  unfold plainComment at h
  dsimp only at h
  split at h
  · split_ifs at h
    rw [← some.inj h] at hc
    cases hc
  generalize hrow : identified u entry (if display ≠ [] then display else raw_name)
    (normalize_name u (_collapse u (withoutEvent raw_name) 80)) = row at h
  split at h
  case isTrue => cases h
  case isFalse hempty =>
  obtain ⟨hname, hrest⟩ := not_or.mp hempty
  obtain ⟨hnormalized, hcomment⟩ := not_or.mp hrest
  split at h
  case isTrue => cases h
  case isFalse =>
  obtain rfl := some.inj h
  have hstable := (of_decide_eq_true hc).2.2
  obtain ⟨e, rfl⟩ : ∃ e, row = some e := by
    cases row with
    | none => exact absurd rfl hstable
    | some e => exact ⟨e, rfl⟩
  refine ⟨rfl, if_pos hc, if_pos hc, visible_of_collapse hname, hnormalized, visible_of_collapse hcomment, ?_,
    fun _ => ⟨e, mem_identified hrow, rfl, hstable⟩⟩
  exact (clean_clean _ _).symm

/-- The entry of the row of a line that is not of another source. -/
theorem remembered_line {raw_line : Text}
    (h : parseLine u sha256 cards source excluded preserve entry raw_line = some c) (hc : c.rememberable = true) :
    Remembered u sha256 source entry c := by
  unfold parseLine at h
  dsimp only at h
  have hfilter : ∀ {p : Entry → Bool} {e : Entry}, entry.filter p = some e → entry = some e :=
    fun he => (filter_eq_some_iff.mp he).1
  split at h
  · exact remembered_card h
  · have hplain := remembered_plain h hc
    exact { hplain with row := fun hkind =>
              have ⟨e, he, hstable⟩ := hplain.row hkind
              ⟨e, hfilter he, hstable⟩ }

/-! ## Events -/

/-- The name survives that it is normalized again, as far as its key tells. -/
def NameKept (u : Unicode) (sha256 : Text → Text) (source normalized_name : Text) : Prop :=
  normalize_name u normalized_name ≠ [] ∧
    viewer_key u sha256 source (normalize_name u normalized_name) [] = viewer_key u sha256 source normalized_name []

/-- An event says who the viewer of a comment is. -/
structure About (event : StagedEvent) (c : ViewerComment) : Prop where
  key : event.key = c.key
  fallback : event.fallback_key = c.fallback_key
  source : event.source = c.source
  name : event.display_name = c.display_name
  normalized : event.normalized_name = c.normalized_name
  stable : event.stable_id = c.stable_id
  comment : Visible event.comment

theorem accepted_iff (hc : Remembered u sha256 source entry c)
    {event : StagedEvent} (h : About event c) (staged : StagedPayload) :
    (checkEvent u sha256 staged event).isSome = true ↔ NameKept u sha256 source c.normalized_name := by
  have hkey : c.key ≠ [] := hc.key ▸ key_ne_nil source c.normalized_name c.stable_id
  have hfallback : c.fallback_key ≠ [] := hc.fallback ▸ key_ne_nil source c.normalized_name []
  have hsource : (if event.source ≠ [] then event.source else staged.source) = _source u source := by
    rw [h.source, hc.source_eq, if_pos (source_ne_nil _)]
  have hname : _collapse u c.display_name 80 ≠ [] := (visible_collapse hc.name 80).ne_nil
  have hcomment : _collapse u event.comment 1200 ≠ [] := (visible_collapse h.comment 1200).ne_nil
  have hstable : _collapse u c.stable_id 160 = c.stable_id := by
    rw [hc.token]
    exact collapse_token (fun d hd => mem_clean hd) (length_clean _ _)
  unfold checkEvent NameKept
  dsimp only
  rw [hsource, h.key, h.fallback, h.name, h.normalized, h.stable, if_pos hc.normalized, hstable, key_source, key_source]
  by_cases hnormalized : normalize_name u c.normalized_name = []
  · rw [if_pos (.inr (.inr (.inl hnormalized)))]
    exact ⟨nofun, fun hkept => absurd hnormalized hkept.1⟩
  rw [if_neg (by simp [hkey, hname, hnormalized, hcomment])]
  by_cases hsame : viewer_key u sha256 source (normalize_name u c.normalized_name) [] = viewer_key u sha256 source c.normalized_name []
  · have hkey' : c.key = viewer_key u sha256 source (normalize_name u c.normalized_name) c.stable_id := by
      rw [hc.key]
      by_cases hid : c.stable_id = []
      · rw [hid, hsame]
      · exact key_stable hid ..
    rw [if_neg (not_not.mpr hkey'), if_neg (by rw [hc.fallback, hsame]; simp)]
    exact ⟨fun _ => ⟨hnormalized, hsame⟩, fun _ => rfl⟩
  · split
    · exact ⟨nofun, fun hkept => absurd hkept.2 hsame⟩
    · rw [if_pos ⟨hfallback, by rw [hc.fallback]; exact fun heq => hsame heq.symm⟩]
      exact ⟨nofun, fun hkept => absurd hkept.2 hsame⟩

/-- The comments whose viewers the events name: the first one, where one reply answers a batch of one viewer. -/
def speakers (u : Unicode) (comments : List ViewerComment) (reply_text : Text) : List ViewerComment :=
  let remembered := comments.filter (·.rememberable)
  if (_reply_paragraphs u reply_text).length ≠ comments.length ∧ oneViewer comments then remembered.head?.toList else remembered

/-- What an event says is of this comment, or of all comments of one viewer. -/
def Quotes (u : Unicode) (comments : List ViewerComment) (event : StagedEvent) (c : ViewerComment) : Prop :=
  event.comment = c.comment ∨
    (∀ c' ∈ comments, c'.rememberable = true ∧ c'.key = c.key) ∧
      event.comment = _collapse u ([' ', '/', ' '].intercalate (comments.map ViewerComment.comment)) 1200

theorem about_comment (hc : Visible c.comment) (reply : Text) : About (_event_from_comment u c reply) c :=
  ⟨rfl, rfl, rfl, rfl, rfl, rfl, hc⟩

theorem visible_intercalate {sep first : Text} (h : Visible first) (rest : List Text) : Visible (sep.intercalate (first :: rest)) := by
  obtain ⟨c, hc, hspace⟩ := h
  refine ⟨c, ?_, hspace⟩
  cases rest with
  | nil => simpa using hc
  | cons second rest =>
    simp [hc]

theorem all_of_oneViewer (h : oneViewer comments = true) :
    comments.filter (·.rememberable) = comments ∧ ∀ c ∈ comments, ∀ c' ∈ comments, c.key = c'.key := by
  unfold oneViewer at h
  rw [Bool.and_eq_true, decide_eq_true_eq, decide_eq_true_eq] at h
  have hall : comments.filter (·.rememberable) = comments :=
    filter_sublist.eq_of_length h.2
  refine ⟨hall, fun c hc c' hc' => ?_⟩
  obtain ⟨key, hkey⟩ := length_eq_one_iff.mp h.1
  rw [hall] at hkey
  have hmem : ∀ d ∈ comments, d.key = key := by
    intro d hd
    have : d.key ∈ (comments.map ViewerComment.key).dedup := mem_dedup.mpr (mem_map_of_mem hd)
    rw [hkey] at this
    exact mem_singleton.mp this
  rw [hmem c hc, hmem c' hc']

/-- The events name the viewers of these comments, and no others. -/
theorem events_about (hcomments : ∀ c ∈ comments, c.rememberable = true → Visible c.comment)
    (reply_text : Text) :
    (∀ e ∈ eventsOf u comments reply_text, ∃ c ∈ speakers u comments reply_text, About e c ∧ Quotes u comments e c) ∧
      ∀ c ∈ speakers u comments reply_text, ∃ e ∈ eventsOf u comments reply_text, About e c := by
  unfold eventsOf speakers
  dsimp only
  split
  case isTrue hlength =>
    rw [if_neg (fun h => h.1 hlength)]
    constructor
    · intro e he
      obtain ⟨p, hp, rfl⟩ := mem_map.mp he
      obtain ⟨hzip, hremember⟩ := mem_filter.mp hp
      have hmem := (of_mem_zip hzip).1
      exact ⟨p.1, mem_filter.mpr ⟨hmem, hremember⟩, about_comment (hcomments p.1 hmem hremember) p.2, .inl rfl⟩
    · intro c hc
      obtain ⟨hmem, hremember⟩ := mem_filter.mp hc
      have hzip : c ∈ (comments.zip (_reply_paragraphs u reply_text)).map Prod.fst := by
        rw [map_fst_zip hlength.ge]
        exact hmem
      obtain ⟨p, hp, rfl⟩ := mem_map.mp hzip
      exact ⟨_, mem_map_of_mem (mem_filter.mpr ⟨hp, hremember⟩), about_comment (hcomments p.1 hmem hremember) p.2⟩
  case isFalse hlength =>
    split
    case isTrue hone =>
      rw [if_pos ⟨hlength, hone⟩]
      obtain ⟨hall, hkeys⟩ := all_of_oneViewer hone
      have hremember : ∀ c ∈ comments, c.rememberable = true := fun c hc => (mem_filter.mp (hall.symm ▸ hc)).2
      rw [hall]
      cases comments with
      | nil => exact ⟨nofun, nofun⟩
      | cons first rest =>
        have hvisible := hcomments first mem_cons_self (hremember first mem_cons_self)
        have habout : About { _event_from_comment u first (_collapse u reply_text 1600) with
            comment := _collapse u ([' ', '/', ' '].intercalate ((first :: rest).map ViewerComment.comment)) 1200 } first :=
          ⟨rfl, rfl, rfl, rfl, rfl, rfl, visible_collapse (visible_intercalate hvisible _) 1200⟩
        simp only [List.head?_cons, toList_some, map_cons, map_nil, mem_singleton, forall_eq,
          exists_eq_left] at habout ⊢
        exact ⟨⟨habout, .inr ⟨fun c hc => ⟨hremember c hc, hkeys c hc first mem_cons_self⟩, rfl⟩⟩, habout⟩
    case isFalse hone =>
      rw [if_neg (fun h => hone h.2)]
      constructor
      · intro e he
        obtain ⟨c, hc, rfl⟩ := mem_map.mp he
        obtain ⟨hmem, hremember⟩ := mem_filter.mp hc
        exact ⟨c, hc, about_comment (hcomments c hmem hremember) [], .inl rfl⟩
      · intro c hc
        obtain ⟨hmem, hremember⟩ := mem_filter.mp hc
        exact ⟨_, mem_map_of_mem hc, about_comment (hcomments c hmem hremember) []⟩

/-- A comment of a batch is the one of a line, with the row at its place. -/
theorem mem_parse_batch {lines : List Text} {rows : Option (List SidecarRow)}
    (h : c ∈ parse_batch u sha256 cards lines source excluded rows preserve) :
    ∃ (i : ℕ) (line : Text), lines[i]? = some line ∧
      parseLine u sha256 cards source excluded preserve (load_batch_metadata u rows)[i]? line = some c := by
  unfold parse_batch at h
  rw [reduceOption_mem_iff, mem_mapIdx] at h
  obtain ⟨i, hi, hline⟩ := h
  exact ⟨i, lines[i], List.getElem?_eq_getElem hi, hline⟩

end Docich.ViewerMemory
