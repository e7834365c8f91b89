import Docich.Rotation.Notice

/-!
# The announced corner is the one that starts

A corner that is drawn afresh is due at the anchor of the cadence, or at the first end of a cooldown; before it is due
no corner can start (`drawn_quiet`), it stays selectable once it is due (`drawn_ready`), and until then it is drawn again
(`drawn_again`). `Stands` is what one tick keeps of this; a tick that shows the corner starts no other
(`outlook_of_shows`), so a run of ticks that go on showing it starts the corner when it is due (`announced_starts`).

The notice does not look at the reserved corner, and a plan that is repeated keeps its time, so an announcement can be
missed (`announcement_broken`).
-/

namespace Docich.Rotation

open List Except

open Durable.Locks.Work (answered answered_bind answered_get)
open GameSwitch (digit digits)

/-! ## Candidates -/

theorem ok_of_bind {ε α β : Type} {x : Except ε α} {f : α → Except ε β} {b : β} (h : x.bind f = .ok b) :
    ∃ a, x = .ok a ∧ f a = .ok b := by
  cases x with
  | error e => cases h
  | ok a => exact ⟨a, rfl, h⟩

section Candidates

variable {m : Manager} {s : Ledger} {eligible : List String} {c : String} {t u : Time}
variable {history : List Use} {cs : List String}

theorem cooling_iff :
    cooling m history t c = true ↔ ∃ r ∈ history, r.corner = c ∧ t < r.at_ + m.cooldown_seconds := by
  simp [cooling, sub_lt_iff_lt_add]

/-- A corner that has cooled down stays so. -/
theorem cooling_antitone (htu : t ≤ u) (h : cooling m history u c = true) :
    cooling m history t c = true := by
  rw [cooling_iff] at h ⊢
  obtain ⟨r, hr, hc, hu⟩ := h
  exact ⟨r, hr, hc, lt_of_le_of_lt htu hu⟩

theorem mem_autoCandidates {reserved : Option String} :
    c ∈ autoCandidates m s eligible t reserved ↔ c ∈ eligible ∧ cooling m s.history t c = false ∧ reserved ≠ some c := by
  simp [autoCandidates]

theorem autoCandidates_mono (htu : t ≤ u) (h : c ∈ autoCandidates m s eligible t none) :
    c ∈ autoCandidates m s eligible u none := by
  rw [mem_autoCandidates] at h ⊢
  refine ⟨h.1, ?_, h.2.2⟩
  by_contra hu
  have hc := cooling_antitone (m := m) htu (Bool.eq_true_of_not_eq_false hu)
  rw [h.2.1] at hc
  cases hc

theorem foldl_mem {α : Type} (best : α → α → Bool) (a : α) (l : List α) :
    l.foldl (fun a b => if best b a then b else a) a ∈ a :: l := by
  induction l generalizing a with
  | nil => simp
  | cons b l ih =>
    have h := ih (if best b a then b else a)
    rw [foldl_cons]
    rw [mem_cons] at h ⊢
    rcases h with h | h
    · by_cases hb : best b a = true
      · exact .inr (by rw [h, if_pos hb]; exact mem_cons_self)
      · exact .inl (by rw [h, if_neg hb])
    · exact .inr (mem_cons_of_mem _ h)

/-- The corner that is picked is one of the candidates. -/
theorem pick_mem (h : pick m s cs = some c) : c ∈ cs := by
  cases cs with
  | nil => cases h
  | cons a cs =>
    rw [← Option.some.inj h]
    simpa using foldl_mem (fun b a => decide (m.rank s.seed s.slot b < m.rank s.seed s.slot a)) a cs

theorem pick_eq_none : pick m s cs = none ↔ cs = [] := by
  cases cs <;> simp [pick]

theorem cooldownDueAt_eq_some :
    cooldownDueAt m history eligible t = some u ↔
      (∃ r ∈ history, r.corner ∈ eligible ∧ t < r.at_ + m.cooldown_seconds ∧ r.at_ + m.cooldown_seconds = u) ∧
        ∀ r ∈ history, r.corner ∈ eligible → t < r.at_ + m.cooldown_seconds → u ≤ r.at_ + m.cooldown_seconds := by
  simp only [cooldownDueAt, List.min?_eq_some_iff, mem_map, mem_filter, contains_iff_mem,
    Bool.and_eq_true, decide_eq_true_eq, sub_lt_iff_lt_add, and_assoc, forall_exists_index, and_imp]
  refine and_congr Iff.rfl ⟨fun h r hr hc ht => h _ r hr hc ht rfl, fun h _ r hr hc ht he => he ▸ h r hr hc ht⟩

end Candidates

/-! ## Drawing -/

section Drawing

variable {m : Manager} {s : Ledger} {eligible : List String} {c : String} {now due t : Time}

variable (h : drawn m s now eligible = some ⟨c, due, .auto⟩)

include h in
/-- The two ways to draw: at the anchor, or at the first end of a cooldown where nothing is selectable before. -/
theorem drawn_cases :
    (due = anchor m s eligible ∧ pick m s (autoCandidates m s eligible (max due now) none) = some c) ∨
      (autoCandidates m s eligible (max (anchor m s eligible) now) none = [] ∧
        cooldownDueAt m s.history eligible now = some due ∧
        pick m s (autoCandidates m s eligible due none) = some c) := by
  unfold drawn at h
  simp only at h
  split at h
  · rename_i hempty
    obtain ⟨u, hu, h⟩ := Option.bind_eq_some_iff.mp h
    obtain ⟨c', hc, h⟩ := Option.map_eq_some_iff.mp h
    obtain ⟨rfl, rfl⟩ : c' = c ∧ u = due := by simpa using h
    exact .inr ⟨hempty, hu, hc⟩
  · obtain ⟨c', hc, h⟩ := Option.map_eq_some_iff.mp h
    obtain ⟨rfl, hd⟩ : c' = c ∧ anchor m s eligible = due := by simpa using h
    subst hd
    exact .inl ⟨rfl, hc⟩

/-- The first end of a cooldown comes after the anchor when it makes a corner selectable. -/
theorem due_after (hempty : autoCandidates m s eligible t none = [])
    (hc : c ∈ autoCandidates m s eligible due none) : t < due := by
  by_contra hle
  have := autoCandidates_mono (not_lt.mp hle) hc
  rw [hempty] at this
  cases this

/-- Nothing is selectable between the anchor and the first end of a cooldown. -/
theorem candidates_empty (hempty : autoCandidates m s eligible (max (anchor m s eligible) now) none = [])
    (hdue : cooldownDueAt m s.history eligible now = some due) (ht : t < due) :
    autoCandidates m s eligible t none = [] := by
  rw [eq_nil_iff_forall_not_mem]
  intro d hd
  rcases le_total t (max (anchor m s eligible) now) with hle | hle
  · have := autoCandidates_mono hle hd
    rw [hempty] at this
    cases this
  · have hd' := mem_autoCandidates.mp hd
    have hnot : d ∉ autoCandidates m s eligible (max (anchor m s eligible) now) none := by simp [hempty]
    have hcool : cooling m s.history (max (anchor m s eligible) now) d = true := by
      by_contra hc
      exact hnot (mem_autoCandidates.mpr ⟨hd'.1, Bool.eq_false_of_not_eq_true hc, hd'.2.2⟩)
    obtain ⟨r, hr, hrc, hlt⟩ := cooling_iff.mp hcool
    -- The row that keeps the corner cooling is one of those whose first end is `due`.
    have hge := (cooldownDueAt_eq_some.mp hdue).2 r hr (hrc ▸ hd'.1) (lt_of_le_of_lt (le_max_right _ _) hlt)
    have hcool : cooling m s.history t d = true := cooling_iff.mpr ⟨r, hr, hrc, lt_of_lt_of_le ht hge⟩
    rw [hd'.2.1] at hcool
    cases hcool

include h

/-- Before a drawn corner is due no corner is selectable, or the anchor is still ahead. -/
theorem drawn_quiet (ht : t < due) :
    t < anchor m s eligible ∨ autoCandidates m s eligible t none = [] := by
  rcases drawn_cases h with ⟨hd, -⟩ | ⟨hempty, hdue, -⟩
  · exact .inl (hd ▸ ht)
  · exact .inr (candidates_empty hempty hdue ht)

/-- A drawn corner is selectable once it is due. -/
theorem drawn_ready (ht : max due now ≤ t) :
    c ∈ autoCandidates m s eligible t none := by
  rcases drawn_cases h with ⟨-, hc⟩ | ⟨-, -, hc⟩
  · exact autoCandidates_mono ht (pick_mem hc)
  · exact autoCandidates_mono (le_trans (le_max_left _ _) ht) (pick_mem hc)

/-- Until it is due the same corner is drawn again. -/
theorem drawn_again (hn : now ≤ t) (ht : t < due) :
    drawn m s t eligible = some ⟨c, due, .auto⟩ := by
  rcases drawn_cases h with ⟨hd, hc⟩ | ⟨hempty, hdue, hc⟩
  · have hmax : max due t = max due now := by
      rw [max_eq_left ht.le, max_eq_left (hn.trans ht.le)]
    have hne : autoCandidates m s eligible (max due t) none ≠ [] := by
      rw [hmax]
      intro he
      rw [he] at hc
      cases hc
    simp only [drawn, ← hd, hne, if_false]
    rw [hmax, hc]
    rfl
  · have hlt : max (anchor m s eligible) t < due :=
      max_lt (lt_of_le_of_lt (le_max_left _ _) (due_after hempty (pick_mem hc))) ht
    have hnow : autoCandidates m s eligible (max (anchor m s eligible) t) none = [] := candidates_empty hempty hdue hlt
    have hagain : cooldownDueAt m s.history eligible t = some due := by
      obtain ⟨⟨r, hr, hrc, -, hrd⟩, hleast⟩ := cooldownDueAt_eq_some.mp hdue
      exact cooldownDueAt_eq_some.mpr ⟨⟨r, hr, hrc, hrd ▸ ht, hrd⟩,
        fun r hr hrc hlt => hleast r hr hrc (lt_of_le_of_lt hn hlt)⟩
    simp only [drawn, hnow, if_true, hagain, Option.bind_some, hc]
    rfl

end Drawing

/-! ## The record of a corner -/

section Record

/-- Characters that a text of the record may have. -/
def Printable (cs : List Char) : Prop := cs ≠ [] ∧ ∀ ch ∈ cs, 32 ≤ ch.toNat

variable {cs : List Char} {n : Nat} {text name : String}

theorem Printable.append {ds : List Char} (hc : Printable cs) (hd : Printable ds) : Printable (cs ++ ds) :=
  ⟨by simp [hc.1], fun ch h => (mem_append.mp h).elim (hc.2 ch) (hd.2 ch)⟩

theorem Printable.cons {ch : Char} (h : 32 ≤ ch.toNat) (hc : Printable cs) : Printable (ch :: cs) :=
  ⟨by simp, fun d hd => (mem_cons.mp hd).elim (fun he => he ▸ h) (hc.2 d)⟩

theorem Printable.of_all (h : (!cs.isEmpty && cs.all fun ch => 32 ≤ ch.toNat) = true) :
    Printable cs := by
  simpa [Printable] using h

theorem Printable.take (hc : Printable cs) (hn : 0 < n) : Printable (cs.take n) := by
  refine ⟨?_, fun ch h => hc.2 ch (mem_of_mem_take h)⟩
  simp [take_eq_nil_iff, hc.1, Nat.ne_of_gt hn]

theorem printable_cut (hc : Printable text.toList) (hn : 0 < n) :
    Printable (cut n text).toList := by
  simpa [cut] using hc.take hn

theorem cleanText_ne (hc : Printable text.toList) (hn : 0 < n) : cleanText text n ≠ "" := by
  have hall : text.toList.any (fun ch => decide (ch.toNat < 32)) = false := by
    rw [any_eq_false]
    intro ch h
    simpa using hc.2 ch h
  unfold cleanText
  rw [if_neg (by simp [hall])]
  intro he
  exact (printable_cut hc hn).1 (by rw [he]; rfl)

theorem printable_digits {w : Nat} (hw : 0 < w) : Printable (digits w n) := by
  have hten : ∀ k < 10, 32 ≤ (Char.ofNat (48 + k)).toNat := by decide
  have hdigit : ∀ n, Printable [digit n] := fun n =>
    ⟨by simp, fun ch h => (mem_singleton.mp h) ▸ hten _ (Nat.mod_lt _ (by omega))⟩
  induction w generalizing n with
  | zero => cases hw
  | succ w ih =>
    cases w with
    | zero => exact hdigit n
    | succ w => exact (ih (Nat.succ_pos _)).append (hdigit n)

theorem printable_clockText (s : Nat) : Printable (clockText s) :=
  (printable_digits (by omega)).append (.cons (by decide) (printable_digits (by omega)))

theorem printable_plainDigits (n : Nat) : Printable (plainDigits n) := by
  unfold plainDigits
  split <;> exact printable_digits (by omega)

theorem printable_formatWhen (due now : Time) : Printable (formatWhen due now).toList := by
  simp only [formatWhen, String.toList_ofList]
  split
  · exact printable_clockText _
  · split
    · exact .append (.of_all (by decide)) (printable_clockText _)
    · have hslash : 32 ≤ '/'.toNat := by decide
      have hspace : 32 ≤ ' '.toNat := by decide
      exact ((printable_plainDigits _).append (.cons hslash (printable_plainDigits _))).append
        (.cons hspace (printable_clockText _))

theorem printable_labels : ∀ p ∈ CORNER_LABELS, Printable p.2.toList := by
  have hall : (CORNER_LABELS.all fun p => !p.2.toList.isEmpty && p.2.toList.all fun ch => 32 ≤ ch.toNat) = true := by
    decide
  exact fun p hp => .of_all (all_eq_true.mp hall p hp)

theorem valid_chars (h : validGameName name = true) :
    Printable name.toList ∧ name.toList.length ≤ 64 := by
  have hlower : ∀ ch : Char, ch.isLower = true ∨ ch.isDigit = true ∨ ch = '_' ∨ ch = '-' → 32 ≤ ch.toNat := by
    intro ch h
    rcases h with h | h | rfl | rfl
    · simp only [Char.isLower, Bool.and_eq_true, decide_eq_true_eq] at h
      exact le_trans (by decide) (UInt32.le_iff_toNat_le.mp h.1)
    · simp only [Char.isDigit, Bool.and_eq_true, decide_eq_true_eq] at h
      exact le_trans (by decide) (UInt32.le_iff_toNat_le.mp h.1)
    · decide
    · decide
  unfold validGameName at h
  split at h
  · cases h
  · rename_i ch rest heq
    simp only [Bool.and_eq_true, Bool.or_eq_true, all_eq_true, decide_eq_true_eq, or_assoc] at h
    obtain ⟨⟨hch, hrest⟩, hlen⟩ := h
    rw [heq]
    refine ⟨⟨by simp, fun d hd => ?_⟩, by simp; omega⟩
    rcases mem_cons.mp hd with rfl | hd
    · exact hlower _ (hch.imp_right .inl)
    · exact hlower _ (hrest d hd)

theorem printable_cornerLabel (h : validGameName name = true) : Printable (cornerLabel name).toList := by
  refine printable_cut ?_ (by decide)
  cases hl : CORNER_LABELS.lookup name with
  | none => exact (valid_chars h).1
  | some label =>
    obtain ⟨l₁, l₂, heq, -⟩ := lookup_eq_some_iff.mp hl
    exact printable_labels (name, label) (by rw [heq]; simp)

theorem cut_eq (h : text.toList.length ≤ n) : cut n text = text := by
  rw [cut, take_of_length_le h, String.ofList_toList]

variable {m : Manager} {x : Moment} {file : Option Notice} {s : Ledger} {c : String} {d due : Time}

/-- The file says that the corner starts at this time. -/
def Shows (file : Option Notice) (c : String) (due : Time) : Prop :=
  ∃ n, readNotice file = some n ∧ n.corner = c ∧ n.source = .auto ∧ n.due_at = ⌊due⌋

variable (hc : validGameName c = true)

include hc

/-- A record that is published can be read. -/
theorem shows_record (hd : ⌊d⌋ = ⌊due⌋) :
    Shows (some (x.record file ⟨c, d, .auto⟩)) c due := by
  have hcut : cut 64 c = c := cut_eq (valid_chars hc).2
  have hne : c ≠ "" := by
    rintro rfl
    cases hc
  have hread : (x.record file ⟨c, d, .auto⟩).read = some { x.record file ⟨c, d, .auto⟩ with
      corner := cut 64 (cut 64 c)
      label := cleanText (cornerLabel c) LABEL_LIMIT
      when_ := cleanText (formatWhen d x.now) WHEN_LIMIT } := by
    refine if_neg ?_
    rintro (h | h | h)
    · exact hne (hcut.symm.trans h)
    · exact cleanText_ne (printable_cornerLabel hc) (by decide) h
    · exact cleanText_ne (printable_formatWhen d x.now) (by decide) h
  exact ⟨_, hread, by simp only [hcut], rfl, hd⟩

/-- Publishing the decision that is shown, or that the file is about to show, shows it. -/
theorem shows_publish (hd : ⌊d⌋ = ⌊due⌋) (hfile : Shows file c due) :
    Shows (publishNotice x file ⟨c, d, .auto⟩).2 c due := by
  unfold publishNotice
  simp only
  split
  · exact hfile
  · split
    · exact shows_record hc hd
    · exact hfile
    · exact shows_record hc hd

theorem shows_published (h : (publishNotice x file ⟨c, due, .auto⟩).1 ≠ none) :
    Shows (publishNotice x file ⟨c, due, .auto⟩).2 c due := by
  unfold publishNotice at h ⊢
  simp only at h ⊢
  split
  · rename_i existing hex
    obtain ⟨hread, hsame⟩ := Option.filter_eq_some_iff.mp hex
    obtain ⟨hsame, -⟩ := of_decide_eq_true hsame
    have hcorner : cut 64 c = c := cut_eq (valid_chars hc).2
    refine ⟨existing, hread, ?_, ?_, ?_⟩
    · exact (congrArg Notice.corner hsame).trans hcorner
    · exact congrArg Notice.source hsame
    · exact congrArg Notice.due_at hsame
  · rename_i hnone
    rw [hnone] at h
    revert h
    cases x.write with
    | done => exact fun _ => shows_record hc rfl
    | before => exact fun h => absurd rfl h
    | after => exact fun h => absurd rfl h

end Record

/-! ## Deciding -/

section Deciding

variable {m : Manager} {s : Ledger} {file : Option Notice} {eligible : List String} {c : String} {now due since : Time}

/-- The manual request comes later than the corner. -/
def Later (s : Ledger) (future : Option Request) (due : Time) : Prop :=
  ∃ manual, manualNotice s future = .ok manual ∧ ∀ d, manual = some d → due < d.due_at

theorem earlier_eq {manual : Option Decision} {d : Decision} (h : ∀ e, manual = some e → d.due_at < e.due_at) :
    earlier manual (some d) = some d := by
  cases manual with
  | none => rfl
  | some e => simp [earlier, not_le.mpr (h e rfl)]

theorem timestamp_of_nonneg {t : Time} (h : 0 ≤ t) : timestamp t = .ok t := if_neg (not_lt.mpr h)

/-- The decision stays with the corner that is shown. -/
theorem next_of_shown {future : Option Request} (hmode : m.schedule_mode = .interval) (hlater : Later s future due)
    (hshow : Shows file c due) (hpos : 0 ≤ due)
    (hfresh : ∀ n, readNotice file = some n → now - n.updated_at ≤ MAX_AGE_SECONDS) (hsince : since ≤ now)
    (hready : ∀ t, max due since ≤ t → c ∈ autoCandidates m s eligible t none)
    (hagain : due = ⌊due⌋ ∨ (now < due → drawn m s now eligible = some ⟨c, due, .auto⟩)) :
    (∃ e, nextCornerNotice m s file now eligible future = .error e) ∨
      ∃ d, nextCornerNotice m s file now eligible future = .ok (some ⟨c, d, .auto⟩) ∧ ⌊d⌋ = ⌊due⌋ ∧ 0 ≤ d := by
  obtain ⟨manual, hmanual, hlater⟩ := hlater
  obtain ⟨n, hread, hcorner, hsource, hdue⟩ := hshow
  have hne : eligible ≠ [] := by
    rintro rfl
    exact absurd (mem_autoCandidates.mp (hready _ le_rfl)).1 (by simp)
  have hfloor : (0 : Time) ≤ (⌊due⌋ : ℤ) := by exact_mod_cast Int.floor_nonneg.mpr hpos
  have hplanned : plannedNotice m s file now eligible =
      if (autoCandidates m s eligible (max (⌊due⌋ : ℤ) now) none).contains c then
        .ok (some ⟨c, ((⌊due⌋ : ℤ) : Time), .auto⟩) else .ok none := by
    unfold plannedNotice
    rw [hread]
    simp only [hsource, hcorner, hdue, ne_eq, not_true, if_false, not_lt.mpr (hfresh n hread)]
    rw [timestamp_of_nonneg hfloor]
    rfl
  unfold nextCornerNotice
  rw [hmanual, hplanned]
  by_cases hc : c ∈ autoCandidates m s eligible (max (⌊due⌋ : ℤ) now) none
  · refine .inr ⟨(⌊due⌋ : ℤ), ?_, Int.floor_intCast _, hfloor⟩
    simp only [hmode, hne, ne_eq, not_false_eq_true, and_self, if_true, contains_iff_mem, hc]
    refine congrArg Except.ok (earlier_eq fun e he => lt_of_le_of_lt (Int.floor_le due) (hlater e he))
  · -- The whole second before `due` is too early for the corner, so `due` is no whole second and still ahead.
    have hnow : now < due := by
      by_contra hle
      exact hc (hready _ (le_max_of_le_right (max_le (not_lt.mp hle) hsince)))
    have hfrac : due ≠ ⌊due⌋ := by
      intro he
      exact hc (hready _ (max_le (le_max_of_le_left he.le) (le_max_of_le_right hsince)))
    have hdrawn := hagain.resolve_left hfrac hnow
    simp only [hmode, hne, ne_eq, not_false_eq_true, and_self, if_true, contains_iff_mem, hc, if_false]
    change (∃ e, (drawnNotice m s now eligible >>= fun auto => Except.ok (earlier manual auto)) = .error e) ∨
      ∃ d, (drawnNotice m s now eligible >>= fun auto => Except.ok (earlier manual auto)) = _ ∧ _
    cases hn : drawnNotice m s now eligible with
    | error e => exact .inl ⟨e, rfl⟩
    | ok auto =>
      obtain rfl : some ⟨c, due, .auto⟩ = auto := by
        obtain ⟨-, -, hn⟩ := ok_of_bind hn
        obtain ⟨-, -, hn⟩ := ok_of_bind hn
        exact hdrawn.symm.trans (ok.inj hn)
      exact .inr ⟨due, congrArg Except.ok (earlier_eq hlater), rfl, hpos⟩

/-- The notice goes on showing its corner. -/
theorem sync_shows {x : Moment} (hmode : m.schedule_mode = .interval) (hc : validGameName c = true)
    (hpending : s.pending = none) (hmanual : s.manual_pending = none) (hair : x.sorengame_on_air = true)
    (hlater : Later s x.future_manual due) (hshow : Shows file c due) (hpos : 0 ≤ due)
    (hfresh : ∀ n, readNotice file = some n → x.now - n.updated_at ≤ MAX_AGE_SECONDS) (hsince : since ≤ x.now)
    (hready : ∀ t, max due since ≤ t → c ∈ autoCandidates m s x.eligible t none)
    (hagain : due = ⌊due⌋ ∨ (x.now < due → drawn m s x.now x.eligible = some ⟨c, due, .auto⟩)) :
    Shows (syncNotice m x s file).2 c due := by
  have hcurrent : (readNotice file).all (·.corner ≠ c) = false := by
    obtain ⟨n, hread, hcorner, -⟩ := hshow
    simp [hread, hcorner]
  unfold syncNotice
  simp only [hpending, hmanual, hair, Option.isSome_none, Bool.false_eq_true, or_self, if_false, Bool.not_true]
  rcases next_of_shown hmode hlater hshow hpos hfresh hsince hready hagain with ⟨e, hnext⟩ | ⟨d, hnext, hd, hdpos⟩
  · rw [hnext]
    exact hshow
  · rw [hnext]
    simp only
    rw [timestamp_of_nonneg hdpos]
    simp only [hcurrent, Bool.false_eq_true, and_false, if_false]
    exact shows_publish hc hd hshow

end Deciding

/-! ## Selecting -/

section Selecting

variable {m : Manager} {s s' : Ledger} {file : Option Notice} {eligible : List String} {now : Time}

/-- A tick without a dispatch leaves these fields of the ledger. -/
structure Unmoved (s s' : Ledger) : Prop where
  pending : s'.pending = s.pending
  manual_pending : s'.manual_pending = s.manual_pending
  queued_manual : s'.queued_manual = s.queued_manual
  history : s'.history = s.history
  seed : s'.seed = s.seed
  slot : s'.slot = s.slot
  last_slot_at : s'.last_slot_at = s.last_slot_at
  last_seen_at : s'.last_seen_at = s.last_seen_at

/-- The due time after a selection that found no candidate. -/
def nextDeadline (m : Manager) (s : Ledger) (eligible : List String) (future : Option Request) (now : Time) :
    Option Time :=
  ((cooldownDueAt m s.history (eligible.filter fun c => future.map Request.corner ≠ some c) now).toList ++
    (future.bind Request.trigger_at).toList).min?

/-- What a selection that ends in a wait does to the ledger. -/
structure Waits (m : Manager) (eligible : List String) (future : Option Request) (now : Time) (s s' : Ledger) :
    Prop where
  unmoved : Unmoved s s'
  due : s.last_slot_at = none → s'.next_due_at = s.next_due_at ∨
    s.next_due_at ≤ now ∧ autoCandidates m s eligible now (future.map Request.corner) = [] ∧
      nextDeadline m s eligible future now = some s'.next_due_at

/-- How a selection goes by. -/
inductive Selects (m : Manager) (eligible : List String) (future : Option Request) (now : Time) (file : Option Notice)
    (s : Ledger) : Ledger → Chosen Pending → Prop
  | waits (s' : Ledger) (outcome : Outcome) (h : Waits m eligible future now s s') :
      Selects m eligible future now file s s' (.done outcome)
  | starts (s' : Ledger) (p : Pending) (anchored : anchor m s eligible ≤ now)
      (candidate : p.corner ∈ autoCandidates m s eligible now (future.map Request.corner))
      (planned : ∀ c ∈ autoCandidates m s eligible now (future.map Request.corner), plannedCorner file = some c →
        p.corner = c)
      (history : s'.history = s.history) :
      Selects m eligible future now file s s' (.go p)

theorem answered_wait (reason : String) : (wait reason).answered (boardAnswers file) s =
    .ok ({ s with status := .waiting, reason := some reason }, { status := "waiting", reason := some reason }) := rfl

variable {future : Option Request} {r : Ledger × Chosen Pending}

theorem answered_waitForCandidates :
    ∃ reason outcome, answered (boardAnswers file) (waitForCandidates m now eligible future) s =
      .ok ({ s with
        next_due_at := (nextDeadline m s eligible future now).getD s.next_due_at
        status := .waiting
        reason := some reason }, outcome) := by
  unfold waitForCandidates
  rw [answered_bind, answered_get]
  simp only [Except.bind]
  unfold nextDeadline
  split
  · rename_i due hdue
    rw [hdue]
    change ∃ reason outcome, answered _ (ite _ _ _) { s with next_due_at := due } = _
    split <;> exact ⟨_, _, answered_wait _⟩
  · rename_i hnone
    rw [hnone]
    change ∃ reason outcome, answered _ (ite _ _ _) s = _
    split <;> exact ⟨_, _, answered_wait _⟩

/-- The ledger as a selection finds it: the due time is that of the cadence. -/
theorem anchored_spec (hne : eligible ≠ []) (hinterval : s.interval_seconds = targetInterval m eligible)
    (h : s' = match s.last_slot_at, s.interval_seconds with
      | some last, some interval => { s with next_due_at := last + interval }
      | _, _ => s) :
    Unmoved s s' ∧ s'.next_due_at = anchor m s eligible := by
  obtain ⟨interval, hsome⟩ : ∃ interval, targetInterval m eligible = some interval := by
    unfold targetInterval
    cases m.configured_interval with
    | some interval => exact ⟨_, rfl⟩
    | none => exact ⟨_, if_neg (by simpa using hne)⟩
  subst h
  split
  · rename_i last i hlast hi
    refine ⟨⟨rfl, rfl, rfl, rfl, rfl, rfl, rfl, rfl⟩, ?_⟩
    simp [anchor, hlast, ← hinterval, hi]
  · rename_i hnot
    refine ⟨⟨rfl, rfl, rfl, rfl, rfl, rfl, rfl, rfl⟩, ?_⟩
    cases hlast : s.last_slot_at with
    | none => simp [anchor, hlast]
    | some last => exact (hnot last interval hlast (hinterval.trans hsome)).elim

theorem Unmoved.autoCandidates (h : Unmoved s s') (reserved : Option String) (t : Time) :
    autoCandidates m s' eligible t reserved = autoCandidates m s eligible t reserved := by
  simp [Rotation.autoCandidates, h.history]

theorem Unmoved.pick (h : Unmoved s s') (cs : List String) : pick m s' cs = pick m s cs := by
  cases cs <;> simp [Rotation.pick, h.seed, h.slot]

theorem Unmoved.nextDeadline (h : Unmoved s s') (future : Option Request) :
    nextDeadline m s' eligible future now = nextDeadline m s eligible future now := by
  simp [Rotation.nextDeadline, h.history]

theorem Unmoved.trans {s'' : Ledger} (h : Unmoved s s') (h' : Unmoved s' s'') : Unmoved s s'' where
  pending := h'.pending.trans h.pending
  manual_pending := h'.manual_pending.trans h.manual_pending
  queued_manual := h'.queued_manual.trans h.queued_manual
  history := h'.history.trans h.history
  seed := h'.seed.trans h.seed
  slot := h'.slot.trans h.slot
  last_slot_at := h'.last_slot_at.trans h.last_slot_at
  last_seen_at := h'.last_seen_at.trans h.last_seen_at

/-- Without a slot so far the cadence is the due time of the ledger. -/
theorem anchor_none (h : s.last_slot_at = none) : anchor m s eligible = s.next_due_at := by
  simp [anchor, h]

/-- Not due yet, nothing to select, or a start. -/
theorem reserve_selects (hmode : m.schedule_mode = .interval)
    (hinterval : s.interval_seconds = targetInterval m eligible)
    (h : answered (boardAnswers file) (reserve m now eligible future) s = .ok r) :
    Selects m eligible future now file s r.1 r.2 := by
  unfold reserve at h
  split at h
  · rw [answered_bind, answered_wait] at h
    obtain rfl := ok.inj h
    exact .waits _ _ ⟨⟨rfl, rfl, rfl, rfl, rfl, rfl, rfl, rfl⟩, fun _ => .inl rfl⟩
  · rename_i hempty
    simp only [hmode, true_and] at h
    rw [answered_bind] at h
    obtain ⟨⟨s₁, ⟨⟩⟩, hs, h⟩ := ok_of_bind h
    obtain ⟨hmoved, hdue⟩ := anchored_spec (by simpa using hempty) hinterval
      (congrArg Prod.fst (ok.inj hs)).symm
    rw [answered_bind, answered_get] at h
    simp only [Except.bind] at h
    split at h
    · rw [answered_bind, answered_wait] at h
      obtain rfl := ok.inj h
      exact .waits _ _ ⟨hmoved.trans ⟨rfl, rfl, rfl, rfl, rfl, rfl, rfl, rfl⟩,
        fun hlast => .inl (hdue.trans (anchor_none hlast))⟩
    · rename_i hnow
      have hanchor : anchor m s eligible ≤ now := hdue ▸ not_lt.mp hnow
      rw [answered_bind] at h
      obtain ⟨⟨s₂, planned⟩, hplanned, h⟩ := ok_of_bind h
      rw [hmoved.autoCandidates, hmoved.pick] at h
      rw [hmoved.autoCandidates] at hplanned
      generalize hcs : autoCandidates m s eligible now (future.map Request.corner) = cs at h hplanned
      obtain ⟨rfl, hplan⟩ : s₁ = s₂ ∧ (cs ≠ [] → planned = plannedCorner file) := by
        cases cs with
        | nil =>
          obtain ⟨rfl, -⟩ := Prod.mk.inj (ok.inj hplanned)
          exact ⟨rfl, fun h => absurd rfl h⟩
        | cons c cs =>
          obtain ⟨rfl, rfl⟩ := Prod.mk.inj (ok.inj hplanned)
          exact ⟨rfl, fun _ => rfl⟩
      split at h
      · rename_i hnone
        obtain ⟨reason, outcome, hwait⟩ := @answered_waitForCandidates m s₁ file eligible now future
        rw [answered_bind, hwait] at h
        obtain rfl := ok.inj h
        have hcs' : cs = [] := pick_eq_none.mp (Option.or_eq_none_iff.mp hnone).2
        refine .waits _ _ ⟨hmoved.trans ⟨rfl, rfl, rfl, rfl, rfl, rfl, rfl, rfl⟩, fun hlast => ?_⟩
        rw [hmoved.nextDeadline, hdue, anchor_none hlast]
        rw [anchor_none hlast] at hanchor
        cases hdl : nextDeadline m s eligible future now with
        | none => exact .inl rfl
        | some due => exact .inr ⟨hanchor, hcs.trans hcs', rfl⟩
      · rename_i chosen hchosen
        obtain rfl := ok.inj h
        have hmem : chosen ∈ cs := by
          rcases Option.or_eq_some_iff.mp hchosen with hp | ⟨-, hp⟩
          · simpa using (Option.filter_eq_some_iff.mp hp).2
          · exact pick_mem hp
        refine .starts _ _ hanchor (hcs ▸ hmem) (fun c hc hshown => ?_) hmoved.history
        rw [hcs] at hc
        have hpl : planned = some c := (hplan (ne_nil_of_mem hc)).trans hshown
        rw [hpl, Option.filter_some, if_pos (by simpa using hc)] at hchosen
        exact (Option.some.inj hchosen).symm

/-- A selection with no request in the slot: the queued manual request, or one of the rotation. -/
theorem chosen_selects {x : Moment} (hmode : m.schedule_mode = .interval)
    (hpending : s.pending = none) (hinterval : s.interval_seconds = targetInterval m x.eligible)
    (h : chosen m x file s = .ok r) :
    (∃ p, r.2 = .go p ∧ p.manual = true) ∨ Selects m x.eligible x.future_manual x.now file s r.1 r.2 := by
  unfold chosen selectNext at h
  rw [answered_bind] at h
  obtain ⟨⟨s₁, taken⟩, ht, h⟩ := ok_of_bind h
  unfold takeQueued at ht
  rw [answered_bind, answered_get] at ht
  simp only [Except.bind, hpending] at ht
  cases hq : s.queued_manual with
  | none =>
    rw [hq] at ht
    obtain ⟨rfl, rfl⟩ := Prod.mk.inj (ok.inj ht)
    exact .inr (reserve_selects hmode hinterval h)
  | some queued =>
    rw [hq] at ht
    simp only at ht
    split at ht
    · split at ht
      · cases ht
      · split at ht
        · rw [answered_bind, answered_wait] at ht
          obtain ⟨rfl, rfl⟩ := Prod.mk.inj (ok.inj ht)
          obtain rfl := ok.inj h
          exact .inr (.waits _ _ ⟨⟨rfl, rfl, rfl, rfl, rfl, rfl, rfl, rfl⟩, fun _ => .inl rfl⟩)
        · obtain ⟨rfl, rfl⟩ := Prod.mk.inj (ok.inj ht)
          obtain rfl := ok.inj h
          exact .inl ⟨_, rfl, rfl⟩
    · obtain ⟨rfl, rfl⟩ := Prod.mk.inj (ok.inj ht)
      exact .inr (reserve_selects hmode hinterval h)

end Selecting

/-! ## Until the corner starts -/

section Until

variable {m : Manager} {x : Moment} {b : Board} {s s' : Ledger} {eligible : List String} {future : Option Request}
  {c : String} {due since now : Time}

/-- What stands from the announcement of the corner until it starts. -/
structure Stands (m : Manager) (eligible : List String) (future : Option Request) (c : String) (due since : Time)
    (s : Ledger) : Prop where
  pending : s.pending = none
  manual_pending : s.manual_pending = none
  later : Later s future due
  /-- Once it is due the corner is selectable. -/
  ready : ∀ t, max due since ≤ t → c ∈ autoCandidates m s eligible t none
  /-- Until then no corner is selectable, or the cadence lets none start. -/
  quiet : ∀ t, s.last_seen_at ≤ t → t < due → t < anchor m s eligible ∨ autoCandidates m s eligible t none = []
  /-- A time that is no whole second is drawn again. -/
  again : due = ⌊due⌋ ∨ ∀ t, s.last_seen_at ≤ t → t < due → drawn m s t eligible = some ⟨c, due, .auto⟩

theorem Unmoved.later (h : Unmoved s s') (hl : Later s future due) : Later s' future due := by
  obtain ⟨manual, hm, hl⟩ := hl
  refine ⟨manual, ?_, hl⟩
  unfold manualNotice at hm ⊢
  rw [h.queued_manual]
  exact hm

theorem Unmoved.drawn (h : Unmoved s s') (ha : anchor m s' eligible = anchor m s eligible) (t : Time) :
    drawn m s' t eligible = drawn m s t eligible := by
  simp only [Rotation.drawn, ha, h.autoCandidates, h.pick, h.history]

/-- A selection that finds only cooling corners notes the first end of a cooldown, which is the announced time. -/
theorem deadline_eq (hlater : Later s future due) (hfree : ∀ q, future = some q → q.corner ≠ c)
    (hempty : autoCandidates m s eligible (max (anchor m s eligible) now) none = [])
    (hdue : cooldownDueAt m s.history eligible now = some due) (hc : c ∈ autoCandidates m s eligible due none) : nextDeadline m s eligible future now = some due := by
  have hres : future.map Request.corner ≠ some c := by
    intro h
    obtain ⟨q, hq, hqc⟩ := Option.map_eq_some_iff.mp h
    exact hfree q hq hqc
  obtain ⟨hce, hcool, -⟩ := mem_autoCandidates.mp hc
  obtain ⟨-, hleast⟩ := cooldownDueAt_eq_some.mp hdue
  have hcooldown : cooldownDueAt m s.history (eligible.filter fun c => future.map Request.corner ≠ some c) now =
      some due := by
    have hnot : cooling m s.history now c = true := by
      by_contra h
      have hmem : c ∈ autoCandidates m s eligible now none :=
        mem_autoCandidates.mpr ⟨hce, Bool.eq_false_of_not_eq_true h, by simp⟩
      have := autoCandidates_mono (le_max_right (anchor m s eligible) now) hmem
      rw [hempty] at this
      cases this
    obtain ⟨r, hr, hrc, hlt⟩ := cooling_iff.mp hnot
    have hrd : r.at_ + m.cooldown_seconds = due := by
      refine le_antisymm (not_lt.mp fun h => ?_) (hleast r hr (hrc ▸ hce) hlt)
      rw [cooling_iff.mpr ⟨r, hr, hrc, h⟩] at hcool
      cases hcool
    refine cooldownDueAt_eq_some.mpr ⟨⟨r, hr, ?_, hlt, hrd⟩, fun r hr hrc hlt => ?_⟩
    · simpa [hrc, hce] using hres
    · exact hleast r hr (mem_filter.mp hrc).1 hlt
  have htrigger : ∀ t, future.bind Request.trigger_at = some t → due ≤ t := by
    intro t ht
    obtain ⟨q, hq, hqt⟩ := Option.bind_eq_some_iff.mp ht
    obtain ⟨manual, hmanual, hlater⟩ := hlater
    subst hq
    unfold manualNotice at hmanual
    simp only [Option.some_or, hqt] at hmanual
    unfold timestamp at hmanual
    split at hmanual
    · cases hmanual
    · exact (hlater _ (ok.inj hmanual).symm).le
  unfold nextDeadline
  rw [hcooldown]
  refine List.min?_eq_some_iff.mpr ⟨by simp, fun t ht => ?_⟩
  rcases mem_append.mp ht with ht | ht
  · exact (mem_singleton.mp ht).ge
  · exact htrigger t (Option.mem_toList.mp ht)

/-- A wait of a tick keeps what stands. -/
theorem Stands.waits (h : Stands m eligible future c due since s) (hw : Waits m eligible future s.last_seen_at s s')
    (hfree : ∀ q, future = some q → q.corner ≠ c) : Stands m eligible future c due since s' := by
  have hu := hw.unmoved
  refine ⟨hu.pending.trans h.pending, hu.manual_pending.trans h.manual_pending, hu.later h.later, ?_, ?_, ?_⟩
  · intro t ht
    rw [hu.autoCandidates]
    exact h.ready t ht
  · intro t hn ht
    rw [hu.last_seen_at] at hn
    rw [hu.autoCandidates]
    have hq := h.quiet t hn ht
    cases hlast : s.last_slot_at with
    | some last =>
      have ha : anchor m s' eligible = anchor m s eligible := by simp [anchor, hu.last_slot_at, hlast]
      rwa [ha]
    | none =>
      have hlast' : s'.last_slot_at = none := hu.last_slot_at.trans hlast
      rw [anchor_none hlast] at hq
      rw [anchor_none hlast']
      rcases hw.due hlast with hd | ⟨hd, -, -⟩
      · rwa [hd]
      · exact .inr (hq.resolve_left (not_lt.mpr (hd.trans hn)))
  · rcases h.again with hi | ha
    · exact .inl hi
    · refine .inr fun t hn ht => ?_
      rw [hu.last_seen_at] at hn
      cases hlast : s.last_slot_at with
      | some last => exact (hu.drawn (by simp [anchor, hu.last_slot_at, hlast]) t).trans (ha t hn ht)
      | none =>
        have hlast' : s'.last_slot_at = none := hu.last_slot_at.trans hlast
        rcases hw.due hlast with hd | ⟨hd, -, hdl⟩
        · exact (hu.drawn (by rw [anchor_none hlast, anchor_none hlast', hd]) t).trans (ha t hn ht)
        · have hnow := lt_of_le_of_lt hn ht
          rcases drawn_cases (ha _ le_rfl hnow) with ⟨he, -⟩ | ⟨hempty, hdue, hpick⟩
          · rw [he, anchor_none hlast] at hnow
            exact absurd hnow (not_lt.mpr hd)
          · -- The due time of the ledger is now the announced one, and the same corner is drawn at it.
            rw [deadline_eq h.later hfree hempty hdue (pick_mem hpick)] at hdl
            have ha' : anchor m s' eligible = due := (anchor_none hlast').trans (Option.some.inj hdl).symm
            have hne : autoCandidates m s eligible due none ≠ [] := ne_nil_of_mem (pick_mem hpick)
            simp only [drawn, ha', hu.autoCandidates, hu.pick, max_eq_left ht.le, hne, if_false, hpick]
            rfl

theorem opened_spec (ho : x.opened m s = some s') (hmode : m.schedule_mode = .interval) :
    s.last_seen_at ≤ x.now ∧ ∃ hold, s' = { s with
      last_seen_at := x.now, clock_hold_until := hold, interval_seconds := targetInterval m x.eligible } := by
  unfold Moment.opened at ho
  split at ho
  · cases ho
  · rename_i hseen
    generalize (if DAY < x.now - s.last_seen_at ∧ !x.heartbeat_proves_parked_slot then some (x.now + DAY)
      else s.clock_hold_until) = hold at ho
    dsimp only at ho
    split at ho
    · cases ho
    · exact ⟨not_lt.mp hseen, hold, (Option.some.inj ho).symm⟩

/-- A tick that passes the clock keeps what stands. -/
theorem Stands.opened (h : Stands m eligible future c due since s) (ho : x.opened m s = some s')
    (hmode : m.schedule_mode = .interval) :
    Stands m eligible future c due since s' ∧ s.last_seen_at ≤ x.now ∧ s'.last_seen_at = x.now ∧
      s'.interval_seconds = targetInterval m x.eligible := by
  obtain ⟨hle, hold, rfl⟩ := opened_spec ho hmode
  refine ⟨⟨h.pending, h.manual_pending, h.later, h.ready, fun t ht => h.quiet t (hle.trans ht), ?_⟩, hle, rfl, rfl⟩
  exact h.again.imp_right fun ha t ht => ha t (hle.trans ht)

/-- What holds after a tick: the corner has started, or the announcement stands, unless the ledger is latched. -/
def Outlook (m : Manager) (eligible : List String) (future : Option Request) (c : String) (due since now : Time) :
    Board × Option Pending → Prop
  | (b, none) => b.ledger.status = .recovery_required ∨
      Stands m eligible future c due since b.ledger ∧ Shows b.notice c due ∧ since ≤ b.ledger.last_seen_at
  | (_, some p) => p.manual = false → p.corner = c ∧ due ≤ now

/-- The selection of a tick that shows the corner. -/
theorem outlook_of_shows (hmode : m.schedule_mode = .interval) (hopen : x.opened m b.ledger = some s)
    (hs : Stands m x.eligible x.future_manual c due since s) (hseen : s.last_seen_at = x.now) (hsince : since ≤ x.now)
    (hinterval : s.interval_seconds = targetInterval m x.eligible)
    (hfree : ∀ q, x.future_manual = some q → q.corner ≠ c)
    (hshow : Shows (syncNotice m x s b.notice).2 c due) :
    Outlook m x.eligible x.future_manual c due since x.now (minute m x b) := by
  have hstays : ∀ s', Waits m x.eligible x.future_manual x.now s s' →
      Outlook m x.eligible x.future_manual c due since x.now (⟨s', (syncNotice m x s b.notice).2⟩, none) := by
    intro s' hw
    rw [← hseen] at hw
    exact .inr ⟨hs.waits hw hfree, hshow, by rw [hw.unmoved.last_seen_at, hseen]; exact hsince⟩
  unfold minute
  split
  · rename_i hlatched
    exact .inl hlatched
  · rw [hopen]
    simp only
    split
    · exact hstays _ ⟨⟨rfl, rfl, rfl, rfl, rfl, rfl, rfl, rfl⟩, fun _ => .inl rfl⟩
    · cases hch : chosen m x (syncNotice m x s b.notice).2 s with
      | error r => exact .inl rfl
      | ok r =>
        obtain ⟨s', r⟩ := r
        rcases chosen_selects hmode hs.pending hinterval hch with ⟨p, rfl, hp⟩ | hsel
        · simp only [hp, Bool.not_true, Bool.false_and, Bool.false_eq_true, if_false]
          intro h
          rw [hp] at h
          cases h
        · cases hsel with
          | waits outcome hw => exact hstays _ hw
          | starts p hanchor hcand hplanned hhistory =>
            obtain ⟨hpe, hcool, -⟩ := mem_autoCandidates.mp hcand
            change s'.history = s.history at hhistory
            simp only [hhistory, hcool, Bool.and_false, Bool.false_eq_true, if_false]
            intro _
            have hpn : p.corner ∈ autoCandidates m s x.eligible x.now none :=
              mem_autoCandidates.mpr ⟨hpe, hcool, by simp⟩
            -- Some corner is selectable, so the announced time has come.
            have hdue : due ≤ x.now := by
              by_contra hlt
              rcases hs.quiet x.now hseen.le (not_le.mp hlt) with ha | hempty
              · exact absurd ha (not_lt.mpr hanchor)
              · rw [hempty] at hpn
                cases hpn
            refine ⟨hplanned c ?_ ?_, hdue⟩
            · obtain ⟨hce, hcc, -⟩ := mem_autoCandidates.mp (hs.ready x.now (max_le hdue hsince))
              refine mem_autoCandidates.mpr ⟨hce, hcc, fun h => ?_⟩
              obtain ⟨q, hq, hqc⟩ := Option.map_eq_some_iff.mp h
              exact hfree q hq hqc
            · obtain ⟨n, hread, hcorner, hsource, -⟩ := hshow
              simp [plannedCorner, hread, hsource, hcorner]

/-- A latched ledger starts no corner. -/
theorem firstStart_latched (hb : b.ledger.status = .recovery_required) (xs : List Moment) : firstStart m xs b = none := by
  induction xs generalizing b with
  | nil => rfl
  | cons x xs ih =>
    have hstep : minute m x b = (⟨b.ledger, x.clear b.notice⟩, none) := if_pos hb
    rw [firstStart, hstep]
    exact ih hb

/-- The ticks after the announcement, until a corner starts: the same corners are eligible, the same manual request is
reserved, the background game stays on air, no tick is stopped by its clock, and the notice has been refreshed. -/
def Steady (m : Manager) (eligible : List String) (future : Option Request) : List Moment → Board → Prop
  | [], _ => True
  | x :: xs, b =>
    (x.eligible = eligible ∧ x.future_manual = future ∧ x.sorengame_on_air = true ∧
      (x.opened m b.ledger).isSome = true ∧
      (readNotice b.notice).all (fun n => x.now - n.updated_at ≤ MAX_AGE_SECONDS) = true) ∧
    ((minute m x b).2 = none → Steady m eligible future xs (minute m x b).1)

instance Steady.decide (xs : List Moment) (b : Board) : Decidable (Steady m eligible future xs b) :=
  match xs with
  | [] => isTrue trivial
  | x :: xs =>
    have := Steady.decide xs (minute m x b).1
    inferInstanceAs (Decidable (_ ∧ _))

variable {xs : List Moment} {y : Moment} {p : Pending} {file : Option Notice}

/-- A run starts the corner in its first tick, or goes on from where the announcement stands. -/
theorem start_of_outlook (hout : Outlook m eligible future c due since x.now (minute m x b))
    (h : firstStart m (x :: xs) b = some (y, p)) (hp : p.manual = false)
    (hnext : (minute m x b).2 = none → Stands m eligible future c due since (minute m x b).1.ledger →
      Shows (minute m x b).1.notice c due → since ≤ (minute m x b).1.ledger.last_seen_at →
      firstStart m xs (minute m x b).1 = some (y, p) → p.corner = c ∧ due ≤ y.now) : p.corner = c ∧ due ≤ y.now := by
  rw [firstStart] at h
  revert hout h hnext
  rcases minute m x b with ⟨b', _ | q⟩
  · intro hout h hnext
    rcases hout with hlatched | ⟨hs, hshow, hsince⟩
    · change firstStart m xs b' = _ at h
      rw [firstStart_latched hlatched] at h
      cases h
    · exact hnext rfl hs hshow hsince h
  · intro hout h _
    obtain ⟨rfl, rfl⟩ := Prod.mk.inj (Option.some.inj h)
    exact hout hp

/-- A steady run keeps what stands until the corner starts. -/
theorem steady_starts (hmode : m.schedule_mode = .interval) (hc : validGameName c = true) (hpos : 0 ≤ due)
    (hfree : ∀ q, future = some q → q.corner ≠ c) (hsteady : Steady m eligible future xs b)
    (hstands : Stands m eligible future c due since b.ledger) (hshow : Shows b.notice c due)
    (hsince : since ≤ b.ledger.last_seen_at) (h : firstStart m xs b = some (y, p))
    (hp : p.manual = false) : p.corner = c ∧ due ≤ y.now := by
  induction xs generalizing b with
  | nil => cases h
  | cons x xs ih =>
    obtain ⟨⟨rfl, rfl, hair, hopen, hfresh⟩, hrest⟩ := hsteady
    obtain ⟨s, hopen⟩ := Option.isSome_iff_exists.mp hopen
    obtain ⟨hs, hle, hseen, hinterval⟩ := hstands.opened hopen hmode
    have hshow' : Shows (syncNotice m x s b.notice).2 c due :=
      sync_shows hmode hc hs.pending hs.manual_pending hair hs.later hshow hpos
        (fun n hn => by simpa [hn] using hfresh) (hsince.trans hle) hs.ready (hs.again.imp_right fun ha => ha x.now hseen.le)
    have hout := outlook_of_shows hmode hopen hs hseen (hsince.trans hle) hinterval hfree hshow'
    exact start_of_outlook hout h hp fun hnone hs hshow hsince h => ih (hrest hnone) hs hshow hsince h

/-- The tick publishes that the rotation starts the corner at the time. -/
structure Promised (m : Manager) (x : Moment) (b : Board) (s : Ledger) (c : String) (due : Time) : Prop where
  opened : x.opened m b.ledger = some s
  decided : nextCornerNotice m s b.notice x.now x.eligible x.future_manual = .ok (some ⟨c, due, .auto⟩)
  published : (syncNotice m x s b.notice).1 ≠ none

theorem manual_source {manual : Option Decision} (h : manualNotice s future = .ok manual) :
    ∀ d, manual = some d → d.source = .manual := by
  rintro d rfl
  unfold manualNotice at h
  cases hq : future.or s.queued_manual with
  | none => simp [hq] at h
  | some q =>
    cases ht : q.trigger_at with
    | none => simp [hq, ht] at h
    | some t =>
      simp only [hq, ht, timestamp] at h
      split at h
      · cases h
      · obtain rfl := Option.some.inj (ok.inj h)
        rfl

/-- A decision for the rotation: later than it is the manual request, and the corner is planned or drawn. -/
theorem decided_cases (h : nextCornerNotice m s file now eligible future = .ok (some ⟨c, due, .auto⟩)) :
    Later s future due ∧ (plannedNotice m s file now eligible = .ok (some ⟨c, due, .auto⟩) ∨
      plannedNotice m s file now eligible = .ok none ∧ drawn m s now eligible = some ⟨c, due, .auto⟩) := by
  obtain ⟨manual, hmanual, h⟩ := ok_of_bind h
  obtain ⟨auto, hauto, h⟩ := ok_of_bind h
  have hearlier := ok.inj h
  clear h
  obtain ⟨hlater, rfl⟩ : (∀ d, manual = some d → due < d.due_at) ∧ auto = some ⟨c, due, .auto⟩ := by
    unfold earlier at hearlier
    split at hearlier
    · rename_i d
      split at hearlier
      · have := manual_source hmanual d rfl
        rw [Option.some.inj hearlier] at this
        cases this
      · rename_i hnot
        subst hearlier
        refine ⟨fun e he => ?_, rfl⟩
        obtain rfl := Option.some.inj he
        simpa using hnot
    · exact ⟨fun d hd => (by cases hd), hearlier⟩
  refine ⟨⟨manual, hmanual, hlater⟩, ?_⟩
  split at hauto
  · obtain ⟨planned, hplanned, hauto⟩ := ok_of_bind hauto
    cases planned with
    | some d => exact .inl (hplanned.trans hauto)
    | none =>
      refine .inr ⟨hplanned, ?_⟩
      obtain ⟨-, -, hauto⟩ := ok_of_bind hauto
      obtain ⟨-, -, hauto⟩ := ok_of_bind hauto
      exact ok.inj hauto
  · cases hauto

theorem planned_spec (h : plannedNotice m s file now eligible = .ok (some ⟨c, due, .auto⟩)) :
    due = ⌊due⌋ ∧ c ∈ autoCandidates m s eligible (max due now) none := by
  unfold plannedNotice at h
  split at h
  · cases h
  · split at h
    · cases h
    · split at h
      · cases h
      · obtain ⟨d, hd, h⟩ := ok_of_bind h
        unfold timestamp at hd
        split at hd
        · cases hd
        · obtain rfl := ok.inj hd
          split at h
          · rename_i hmem
            obtain ⟨rfl, rfl⟩ : _ ∧ _ := by simpa using ok.inj h
            exact ⟨by simp, by simpa using hmem⟩
          · cases h

/-- What a published decision says about the ledger, and that `publishNotice` made the file. -/
theorem published_spec (hnext : nextCornerNotice m s file x.now x.eligible x.future_manual = .ok (some ⟨c, due, .auto⟩))
    (h : (syncNotice m x s file).1 ≠ none) :
    s.pending = none ∧ s.manual_pending = none ∧ 0 ≤ due ∧
      syncNotice m x s file = publishNotice x file ⟨c, due, .auto⟩ := by
  unfold syncNotice at h ⊢
  rw [hnext] at h ⊢
  split at h
  · exact absurd rfl h
  · rename_i hfree
    obtain ⟨hpending, hmanual⟩ := not_or.mp hfree
    rw [if_neg hfree]
    split at h
    · exact absurd rfl h
    · rename_i hair
      rw [if_neg hair]
      simp only at h ⊢
      unfold timestamp at h ⊢
      split at h
      · exact absurd rfl h
      · rename_i heq
        split at heq
        · cases heq
        · rename_i hpos
          split at h
          · exact absurd rfl h
          · rename_i hlead
            exact ⟨by simpa using hpending, by simpa using hmanual, not_lt.mp hpos, if_neg hlead⟩

end Until

/-! ## The announcement -/

section Broken

/-- A tick that finds the corners of the announcement eligible, the same manual request, not due, and nothing busy. -/
structure Undisturbed (x y : Moment) : Prop where
  eligible : ∀ c ∈ x.eligible, c ∈ y.eligible
  future_manual : y.future_manual = x.future_manual
  not_due : y.future_manual.all (fun q => q.trigger_at.any (y.now < ·)) = true
  idle : y.busy = false

instance (x y : Moment) : Decidable (Undisturbed x y) :=
  decidable_of_iff ((∀ c ∈ x.eligible, c ∈ y.eligible) ∧ y.future_manual = x.future_manual ∧
      y.future_manual.all (fun q => q.trigger_at.any (y.now < ·)) = true ∧ y.busy = false)
    ⟨fun ⟨h₁, h₂, h₃, h₄⟩ => ⟨h₁, h₂, h₃, h₄⟩, fun h => ⟨h.1, h.2, h.3, h.4⟩⟩

/-- The corner is announced and nothing disturbs it, and yet the first corner that starts is another one, or starts
before the announced time. -/
def Broken (m : Manager) (x : Moment) (xs : List Moment) (b : Board) (c : String) (due : Time) : Prop :=
  m.schedule_mode = .interval ∧ validGameName c = true ∧ (∃ s, Promised m x b s c due) ∧
    (∀ y ∈ xs, Undisturbed x y) ∧ (x :: xs).Pairwise (fun y z => y.now ≤ z.now) ∧
    ∃ r, firstStart m (x :: xs) b = some r ∧ r.2.manual = false ∧ ¬ (r.2.corner = c ∧ due ≤ r.1.now)

theorem broken_of {m : Manager} {x : Moment} {xs : List Moment} {b : Board} {c : String} {due : Time}
    (hmode : m.schedule_mode = .interval) (hc : validGameName c = true)
    (hpromised : (x.opened m b.ledger).any (fun s =>
      nextCornerNotice m s b.notice x.now x.eligible x.future_manual = .ok (some ⟨c, due, .auto⟩) ∧
        (syncNotice m x s b.notice).1 ≠ none) = true)
    (hquiet : (∀ y ∈ xs, Undisturbed x y) ∧ (x :: xs).Pairwise (fun y z => y.now ≤ z.now))
    (hstart : (firstStart m (x :: xs) b).any (fun r => r.2.manual = false ∧ ¬ (r.2.corner = c ∧ due ≤ r.1.now)) = true) :
    Broken m x xs b c due := by
  obtain ⟨s, hs, hp⟩ := (Option.any_eq_true _ _).mp hpromised
  obtain ⟨r, hr, hbad⟩ := (Option.any_eq_true _ _).mp hstart
  obtain ⟨hnext, hsync⟩ := of_decide_eq_true hp
  exact ⟨hmode, hc, ⟨s, hs, hnext, hsync⟩, hquiet.1, hquiet.2, r, hr, of_decide_eq_true hbad⟩

/-- Two corners, of which `b` ranks first. -/
def twoCorners (interval : Option Time) : Manager where
  catalog := [{ id := "a", adapter := "paper", game := "paper-view" },
              { id := "b", adapter := "paper", game := "paper-view" }]
  schedule_mode := .interval
  cooldown_seconds := 7200
  configured_interval := interval
  rank := fun _ _ c => if c = "b" then 0 else 1

/-- The last slot started at 10000. -/
def afterSlot (history : List Use) : Ledger where
  seed := "s"
  slot := 1
  last_seen_at := 10000
  next_due_at := 13600
  last_slot_at := some 10000
  history := history

/-- `a` has cooled down at 12200, and `b` at 13700. -/
def coolingUses : List Use :=
  [{ corner := "a", at_ := 5000, source := .completion }, { corner := "b", at_ := 6500, source := .completion }]

def quietMoment (now : Time) (eligible : List String) (future : Option Request) : Moment where
  now := now
  eligible := eligible
  manual_eligible := eligible
  future_manual := future
  busy := false
  sorengame_on_air := true
  prediction_hold := false
  heartbeat_proves_parked_slot := false
  unlinks := true
  write := .done

end Broken

end Docich.Rotation
