import Docich.DiscordChat.Bot

/-!
# Forgotten messages do not come back

`Forgotten` says what is promised, and `careful` when a step keeps it. What one step may do to a row is `Moved`, and to
all of them `Grows`; the invariant is `Told`, of the tables and the log, with `TaskOk` of the mention that is being
answered. Each operation on the tables is a `Change`; `step_holds` puts them together for a step, and `forgotten_stays`
for the runs.

A deletion only touches rows that are there. A message that is deleted while it waits in the queue gets its row later,
and its answer (`deleted_mention_answered`).
-/

namespace Docich.DiscordChat

open List Option Bool

/-! ## What is promised -/

inductive State.Moves : State → State → Prop
  | stays (s : State) : Moves s s
  | sends : Moves .pending .sending
  | arrives : Moves .sending .sent
  | gives_up : Moves .pending .failed
  | is_lost : Moves .sending .failed
  | is_deleted (s : State) : Moves s .deleted

/-- The exchange is one of those that were forgotten: with one of the ids, or the author's up to then. -/
def Forget.affects (f : Forget) (r : Row) : Prop :=
  f.scope.covers r = true ∧ (f.scope.authorId.isSome = true → r.seq ≤ f.upto)

/-- A gateway event has named the id in the channel of the event. -/
def Forget.names (f : Forget) (event : Event) (id : Text) : Prop :=
  f.scope.authorId = none ∧ f.scope.guildId = event.guildId ∧ f.scope.channelId = event.channelId ∧
    id ∈ f.scope.messageIds

instance (f : Forget) (r : Row) : Decidable (f.affects r) := inferInstanceAs (Decidable (_ ∧ _))
instance (f : Forget) (event : Event) (id : Text) : Decidable (f.names event id) := inferInstanceAs (Decidable (_ ∧ _))

def Entry.forget? : Entry → Option Forget
  | .forgot f => some f
  | _ => none

def Entry.generated? : Entry → Option Text
  | .generated id => some id
  | _ => none

/-- The rows that a context had, or that a reply was generated from. -/
def Entry.sources : Entry → List Nat
  | .built sources | .handed _ sources | .voiced sources => sources
  | .forgot _ | .generated _ | .notified _ => []

def Entry.answered : Entry → Option Event
  | .handed event _ | .notified event => some event
  | .forgot _ | .built _ | .generated _ | .voiced _ => none

/-- What was forgotten, the last first. -/
def Bot.forgets (s : Bot) : List Forget := s.log.filterMap Entry.forget?

/-- The row has no text left. -/
structure Row.Blank (r : Row) : Prop where
  content : r.content = []
  author_name : r.author_name = []
  reply : r.reply = []

/-- What happened does not use an exchange that is forgotten, and does not answer a message that is deleted. -/
def Entry.Clear (x : Entry) (rows : List Row) (f : Forget) : Prop :=
  (∀ r ∈ rows, r.seq ∈ x.sources → ¬ f.affects r) ∧ ∀ event, x.answered = some event → ¬ f.names event event.id

/-- Nothing forgotten is stored, used for a context or sent later, and no message has two generated replies. -/
structure Forgotten (s : Bot) : Prop where
  once : (s.log.filterMap Entry.generated?).Nodup
  gone : ∀ f ∈ s.forgets, ∀ r ∈ s.db.rows, f.affects r → r.Blank ∧ ∀ t, (t, r.seq) ∉ s.db.terms
  unused : ∀ later f earlier, s.log = later ++ .forgot f :: earlier → ∀ x ∈ later, x.Clear s.db.rows f

/-- Every exchange is still there, and has made at most one move. -/
def Keeps (rows rows' : List Row) : Prop :=
  ∀ (i : Nat) (r : Row), rows[i]? = some r → ∃ r' : Row, rows'[i]? = some r' ∧ r'.seq = r.seq ∧
    r'.message_id = r.message_id ∧ r.state.Moves r'.state

/-! ## The condition -/

/-- No gateway event has named the id in the channel of the event so far. -/
def Bot.unnamed (s : Bot) (event : Event) (id : Text) : Bool := s.forgets.all fun f => !decide (f.names event id)

def Bot.knows (s : Bot) (id : Text) : Bool := s.db.rows.any fun r => r.message_id = id

/-- The step begins no exchange with an id that was forgotten earlier, no reply gets such an id, and no notice of a
failure goes to a deleted message. -/
def careful (s : Bot) : Action → Bool
  | .start => match s.queue with
    | event :: _ => s.knows event.id || s.unnamed event event.id
    | [] => true
  | .generated none => match s.task with
    | some (.generating event _ _) => s.unnamed event event.id
    | _ => true
  | .delivered (some replyId) => match s.task with
    | some (.sending event seq _) => !(s.db.find seq).any (·.state = .sending) || s.unnamed event replyId
    | _ => true
  | .voiceCommit event replyId _ => s.knows event.id || s.unnamed event event.id && s.unnamed event replyId
  | _ => true

/-- The states of the runs whose steps meet the condition. -/
inductive Reach (normalize : Text → Text) : Bot → Prop
  | start : Reach normalize {}
  | step {s s' : Bot} {a : Action} (hs : Reach normalize s) (ha : careful s a = true)
      (h : step normalize s a = some s') : Reach normalize s'

/-! ## Rows -/

section Rows

variable {r r' : Row} {rows : List Row} {db db' : Db} {f : Forget}

/-- What a step may do to a row. -/
structure Moved (r r' : Row) : Prop where
  seq : r'.seq = r.seq
  message_id : r'.message_id = r.message_id
  guild_id : r'.guild_id = r.guild_id
  channel_id : r'.channel_id = r.channel_id
  author_id : r'.author_id = r.author_id
  state : r.state.Moves r'.state
  reply_id : r'.reply_id = r.reply_id ∨ r.state = .sending ∧ r'.state = .sent
  blank : (r.state = .deleted → r.Blank) → r'.state = .deleted → r'.Blank

theorem Moved.refl (r : Row) : Moved r r := ⟨rfl, rfl, rfl, rfl, rfl, .stays _, .inl rfl, fun h => h⟩

/-- The rows go on as they are, or move, and rows with new ids may come. -/
def Grows (rows rows' : List Row) : Prop :=
  ∃ g new, rows' = rows.map g ++ new ∧ (∀ r ∈ rows, Moved r (g r)) ∧ ∀ r ∈ new, rows.length < r.seq

theorem Grows.keeps {rows' : List Row} (h : Grows rows rows') : Keeps rows rows' := by
  obtain ⟨g, new, rfl, hg, -⟩ := h
  intro i r hr
  have hi : i < rows.length := (List.getElem?_eq_some_iff.mp hr).1
  have hm := hg r (mem_of_getElem? hr)
  refine ⟨g r, ?_, hm.seq, hm.message_id, hm.state⟩
  rw [List.getElem?_append_left (by simpa using hi), List.getElem?_map, hr]
  rfl

theorem Grows.refl (rows : List Row) : Grows rows rows :=
  ⟨id, [], by simp, fun r _ => .refl r, fun r hr => by cases hr⟩

/-- A row is forgotten because it was before, or because its reply gets a forgotten id. -/
theorem Moved.affects (h : Moved r r') (hf : f.affects r') :
    f.affects r ∨ r.state = .sending ∧ r'.state = .sent ∧ f.scope.authorId = none ∧ f.scope.guildId = r.guild_id ∧
      f.scope.channelId = r.channel_id ∧ ∃ id, r'.reply_id = some id ∧ id ∈ f.scope.messageIds := by
  obtain ⟨hcovers, hupto⟩ := hf
  rw [h.seq] at hupto
  unfold Forget.affects
  rcases h.reply_id with hid | ⟨hs, hs'⟩
  · refine .inl ⟨?_, hupto⟩
    unfold Scope.covers at hcovers ⊢
    rwa [h.guild_id, h.channel_id, h.author_id, h.message_id, hid] at hcovers
  · unfold Scope.covers at hcovers ⊢
    rw [h.guild_id, h.channel_id, h.author_id, h.message_id] at hcovers
    cases ha : f.scope.authorId with
    | some author =>
      rw [ha] at hcovers hupto
      exact .inl ⟨hcovers, hupto⟩
    | none =>
      rw [ha] at hcovers
      simp only [and_eq_true, or_eq_true, decide_eq_true_eq, contains_iff_mem] at hcovers ⊢
      obtain ⟨⟨hg, hc⟩, hm | hr⟩ := hcovers
      · exact .inl ⟨⟨⟨hg, hc⟩, .inl hm⟩, by simp⟩
      · obtain ⟨id, hid, hmem⟩ := (any_eq_true _ _).mp hr
        exact .inr ⟨hs, hs', trivial, hg.symm, hc.symm, id, hid, by simpa using hmem⟩

end Rows

/-! ## Tables -/

section Tables

variable {db db' : Db} {fs : List Forget} {r : Row} {seq : Nat} {g : Row → Row} {f : Forget}

structure Sound (db : Db) : Prop where
  seqs : (db.rows.map Row.seq).Nodup
  bound : ∀ r ∈ db.rows, r.seq ≤ db.rows.length
  ids : (db.rows.map Row.message_id).Nodup
  terms : ∀ t q, (t, q) ∈ db.terms → ∃ r ∈ db.rows, r.seq = q ∧ r.state = .sent
  blank : ∀ r ∈ db.rows, r.state = .deleted → r.Blank

/-- What was forgotten is marked as deleted. -/
def Safe (fs : List Forget) (rows : List Row) : Prop := ∀ f ∈ fs, ∀ r ∈ rows, f.affects r → r.state = .deleted

variable (h : Sound db)

include h

variable {r' x : Row} {normalize : Text → Text} {replyId reply : Text} {ok : Bool} {event : Event}
    {rows : List Row}

theorem Sound.eq_of_seq (hr : r ∈ db.rows) (hr' : r' ∈ db.rows) (hs : r.seq = r'.seq) :
    r = r' := inj_on_of_nodup_map h.seqs hr hr' hs

theorem Sound.find_eq : db.find seq = some r ↔ r ∈ db.rows ∧ r.seq = seq := by
  unfold Db.find
  constructor
  · intro hf
    exact ⟨mem_of_find?_eq_some hf, by simpa using List.find?_some hf⟩
  · rintro ⟨hr, rfl⟩
    obtain ⟨r', hr'⟩ := isSome_iff_exists.mp (List.find?_isSome.mpr ⟨r, hr, by simp⟩ :
      (db.rows.find? fun r' => r'.seq = r.seq).isSome = true)
    have hs : r'.seq = r.seq := by simpa using List.find?_some hr'
    rw [hr', h.eq_of_seq (mem_of_find?_eq_some hr') hr hs]

theorem Sound.active (ha : isActive db seq = true) :
    ∃ r ∈ db.rows, r.seq = seq ∧ r.state = .pending := by
  obtain ⟨r, hr, hs⟩ := (any_eq_true _ _).mp ha
  obtain ⟨hr, hseq⟩ := h.find_eq.mp hr
  exact ⟨r, hr, hseq, by simpa using hs⟩

/-- Moving rows keeps the tables in order. -/
theorem Sound.moved (hg : ∀ r ∈ db.rows, Moved r (g r)) {terms : List (Text × Nat)}
    (ht : ∀ t q, (t, q) ∈ terms → ∃ r ∈ db.rows, r.seq = q ∧ (g r).state = .sent) : Sound ⟨db.rows.map g, terms⟩ where
  seqs := by
    have heq : db.rows.map (Row.seq ∘ g) = db.rows.map Row.seq := List.map_congr_left fun r hr => (hg r hr).seq
    rw [List.map_map, heq]
    exact h.seqs
  bound := by
    intro r' hr'
    obtain ⟨r, hr, rfl⟩ := List.mem_map.mp hr'
    rw [(hg r hr).seq, List.length_map]
    exact h.bound r hr
  ids := by
    have heq : db.rows.map (Row.message_id ∘ g) = db.rows.map Row.message_id :=
      List.map_congr_left fun r hr => (hg r hr).message_id
    rw [List.map_map, heq]
    exact h.ids
  terms := by
    intro t q hq
    obtain ⟨r, hr, hs, hst⟩ := ht t q hq
    exact ⟨g r, List.mem_map_of_mem hr, (hg r hr).seq.trans hs, hst⟩
  blank := by
    intro r' hr'
    obtain ⟨r, hr, rfl⟩ := List.mem_map.mp hr'
    exact (hg r hr).blank (h.blank r hr)

omit h

theorem grows_map (hg : ∀ r ∈ db.rows, Moved r (g r)) : Grows db.rows (db.rows.map g) :=
  ⟨g, [], by simp, hg, fun r hr => by cases hr⟩

theorem Moved.deleted {r : Row} (h : Moved r r') (hd : r.state = .deleted) : r'.state = .deleted := by
  have hm := h.state
  rw [hd] at hm
  generalize r'.state = t at hm
  cases hm <;> rfl

/-- Rows that move stay forgotten, unless a reply arrives with a forgotten id. -/
theorem Safe.moved (h : Safe fs db.rows) (hg : ∀ r ∈ db.rows, Moved r (g r))
    (hnew : ∀ r ∈ db.rows, r.state = .sending → (g r).state = .sent → ∀ f ∈ fs, f.scope.authorId = none →
      f.scope.guildId = r.guild_id → f.scope.channelId = r.channel_id → ∀ id, (g r).reply_id = some id →
        id ∉ f.scope.messageIds) : Safe fs (db.rows.map g) := by
  intro f hf r' hr' haff
  obtain ⟨r, hr, rfl⟩ := mem_map.mp hr'
  rcases (hg r hr).affects haff with haff | ⟨hs, hs', ha, hgd, hc, id, hid, hmem⟩
  · exact (hg r hr).deleted (h f hf r hr haff)
  · exact absurd hmem (hnew r hr hs hs' f hf ha hgd hc id hid)

/-- What an operation on the tables keeps. -/
structure Change (fs : List Forget) (db db' : Db) : Prop where
  sound : Sound db'
  grows : Grows db.rows db'.rows
  safe : Safe fs db'.rows

variable (hs : Safe fs db.rows)

include hs in
include h in
/-- An update of rows that are not sent and that it does not send. -/
theorem change_update {p : Row → Bool} {f : Row → Row}
    (hf : ∀ r ∈ db.rows, p r = true → Moved r (f r)) (hp : ∀ r ∈ db.rows, p r = true → r.state ≠ .sent)
    (hn : ∀ r ∈ db.rows, p r = true → (f r).state ≠ .sent) : Change fs db (db.update p f) := by
  have hg : ∀ r ∈ db.rows, Moved r (if p r = true then f r else r) := by
    intro r hr
    split
    · exact hf r hr ‹_›
    · exact .refl r
  refine ⟨h.moved hg fun t q hq => ?_, grows_map hg, hs.moved hg fun r hr hsd hst => ?_⟩
  · obtain ⟨r, hr, hseq, hst⟩ := h.terms t q hq
    refine ⟨r, hr, hseq, ?_⟩
    rw [if_neg fun hpr => hp r hr hpr hst]
    exact hst
  · split at hst
    · exact absurd hst (hn r hr ‹_›)
    · rw [hsd] at hst
      cases hst

theorem moved_failed (ho : r.open = true) : Moved r (r.cleared .failed) where
  seq := rfl
  message_id := rfl
  guild_id := rfl
  channel_id := rfl
  author_id := rfl
  state := by
    unfold Row.open at ho
    change State.Moves r.state .failed
    cases hs : r.state with
    | pending => exact .gives_up
    | sending => exact .is_lost
    | sent => simp [hs] at ho
    | failed => simp [hs] at ho
    | deleted => simp [hs] at ho
  reply_id := .inl rfl
  blank := fun _ h => by cases h

theorem open_ne_sent (ho : r.open = true) : r.state ≠ .sent := by
  intro hs
  simp [Row.open, hs] at ho

include h

include hs

theorem change_fail (seq : Nat) : Change fs db (failConversation db seq) := by
  refine change_update h hs (fun r _ hp => ?_) (fun r _ hp => ?_) fun r _ _ => by simp [Row.cleared]
  · exact moved_failed (by simpa using (and_eq_true_iff.mp hp).2)
  · exact open_ne_sent (by simpa using (and_eq_true_iff.mp hp).2)

theorem change_initialize : Change fs db (initializeMemory db) :=
  change_update h hs (fun _ _ => moved_failed) (fun _ _ => open_ne_sent) fun r _ _ => by simp [Row.cleared]

theorem change_sending (hm : markSending db seq = some db') :
    Change fs db db' := by
  unfold markSending at hm
  split at hm
  · rename_i hactive
    obtain rfl := some.inj hm
    obtain ⟨r₀, hr₀, hseq₀, hst₀⟩ := h.active hactive
    have hpending : ∀ r ∈ db.rows, decide (r.seq = seq) = true → r.state = .pending := by
      intro r hr hseq
      rw [h.eq_of_seq hr hr₀ ((of_decide_eq_true hseq).trans hseq₀.symm)]
      exact hst₀
    refine change_update h hs (fun r hr hp => ?_) (fun r hr hp => ?_) fun r _ _ => by simp
    · exact ⟨rfl, rfl, rfl, rfl, rfl, (hpending r hr hp) ▸ .sends, .inl rfl, fun _ h => by cases h⟩
    · rw [hpending r hr hp]
      simp
  · cases hm

/-- A reply that arrives with an id that was not forgotten. -/
theorem change_finish (hid : ∀ r ∈ db.rows, r.seq = seq → r.state = .sending → ∀ f ∈ fs, f.scope.authorId = none →
      f.scope.guildId = r.guild_id → f.scope.channelId = r.channel_id → replyId ∉ f.scope.messageIds)
    (hf : finishConversation normalize db seq replyId reply = .ok (db', ok)) : Change fs db db' := by
  unfold finishConversation at hf
  split at hf
  · obtain ⟨rfl, -⟩ := Prod.mk.inj (Except.ok.inj hf)
    exact ⟨h, .refl _, hs⟩
  · rename_i row hrow
    obtain ⟨hmem, hseq⟩ := h.find_eq.mp hrow
    split at hf
    · obtain ⟨rfl, -⟩ := Prod.mk.inj (Except.ok.inj hf)
      exact ⟨h, .refl _, hs⟩
    · rename_i hsending
      have hsending : row.state = .sending := by simpa using hsending
      split at hf
      · cases hf
      · obtain ⟨rfl, -⟩ := Prod.mk.inj (Except.ok.inj hf)
        have hrows : ∀ r ∈ db.rows, decide (r.seq = seq) = true → r = row := fun r hr hp =>
          h.eq_of_seq hr hmem ((of_decide_eq_true hp).trans hseq.symm)
        have hg : ∀ r ∈ db.rows, Moved r (if decide (r.seq = seq) = true then
            { r with state := .sent, reply_id := some replyId, reply := reply } else r) := by
          intro r hr
          split
          · rename_i hp
            have hst : r.state = .sending := hrows r hr hp ▸ hsending
            exact ⟨rfl, rfl, rfl, rfl, rfl, hst ▸ .arrives, .inr ⟨hst, rfl⟩, fun _ h => by cases h⟩
          · exact .refl r
        refine ⟨h.moved hg fun t q hq => ?_, grows_map hg, hs.moved hg fun r hr hst hst' f hf ha hgd hc id hid' => ?_⟩
        · rcases mem_append.mp hq with hq | hq
          · obtain ⟨r, hr, hrq, hst⟩ := h.terms t q hq
            refine ⟨r, hr, hrq, ?_⟩
            split
            · rfl
            · exact hst
          · obtain ⟨term, -, hterm⟩ := mem_map.mp (mem_of_mem_filter hq)
            obtain ⟨-, rfl⟩ := Prod.mk.inj hterm
            exact ⟨row, hmem, hseq, by rw [if_pos (by simpa using hseq)]⟩
        · split at hst' <;> rename_i hp
          · rw [if_pos hp] at hid'
            obtain rfl := some.inj hid'
            exact hid r hr (of_decide_eq_true hp) hst f hf ha hgd hc
          · rw [hst] at hst'
            cases hst'

omit hs

omit h

theorem moved_deleted (r : Row) : Moved r { r.cleared .deleted with reference_id := none } :=
  ⟨rfl, rfl, rfl, rfl, rfl, .is_deleted _, .inl rfl, fun _ _ => ⟨rfl, rfl, rfl⟩⟩

include hs in
include h in
/-- The exchanges of the scope are forgotten, and the others stay. -/
theorem change_forget (s : Scope) (hne : s.authorId ≠ none ∨ s.messageIds ≠ []) :
    Change (⟨s, db.rows.length⟩ :: fs) db (forgetScope db s) := by
  have hg : ∀ r ∈ db.rows,
      Moved r (if s.covers r = true then { r.cleared .deleted with reference_id := none } else r) := by
    intro r _
    split
    · exact moved_deleted r
    · exact .refl r
  have hsafe : Safe fs (db.rows.map fun r =>
      if s.covers r = true then { r.cleared .deleted with reference_id := none } else r) :=
    hs.moved hg fun r _ hst hst' => by
      split at hst'
      · cases hst'
      · rw [hst] at hst'
        cases hst'
  have hdb : forgetScope db s = ⟨db.rows.map fun r =>
      if s.covers r = true then { r.cleared .deleted with reference_id := none } else r,
      db.terms.filter fun t => !((db.rows.filter s.covers).map Row.seq).contains t.2⟩ := by
    unfold forgetScope
    rw [if_neg]
    · rfl
    · rintro ⟨ha, hi⟩
      exact hne.elim (fun h => h ha) (fun h => h hi)
  rw [hdb]
  refine ⟨h.moved hg fun t q hq => ?_, grows_map hg, ?_⟩
  · obtain ⟨hq, hkept⟩ := mem_filter.mp hq
    obtain ⟨r, hr, hrq, hst⟩ := h.terms t q hq
    refine ⟨r, hr, hrq, ?_⟩
    rw [if_neg]
    · exact hst
    · intro hcov
      have : q ∈ (db.rows.filter s.covers).map Row.seq := mem_map.mpr ⟨r, mem_filter.mpr ⟨hr, hcov⟩, hrq⟩
      simp [this] at hkept
  · intro f hf r' hr' haff
    rcases mem_cons.mp hf with rfl | hf
    · obtain ⟨r, hr, rfl⟩ := mem_map.mp hr'
      split
      · rfl
      · rename_i hcov
        have haff := haff.1
        rw [if_neg hcov] at haff
        exact absurd haff hcov
    · exact hsafe f hf r' hr' haff

theorem begin_spec (hb : beginConversation db event = some (db', seq)) :
    db' = { db with rows := db.rows ++ [db.newRow event] } ∧ seq = db.rows.length + 1 ∧
      ∀ r ∈ db.rows, r.message_id ≠ event.id := by
  unfold beginConversation at hb
  split at hb
  · cases hb
  · rename_i hnone
    obtain ⟨rfl, rfl⟩ := Prod.mk.inj (some.inj hb)
    refine ⟨rfl, rfl, fun r hr he => hnone ?_⟩
    exact any_eq_true.mpr ⟨r, hr, by simpa using he⟩

include h

include hs

/-- An exchange that is begun with an id that was not forgotten. -/
theorem change_begin (hb : beginConversation db event = some (db', seq)) (hupto : ∀ f ∈ fs, f.upto ≤ db.rows.length)
    (hnames : ∀ f ∈ fs, ¬ f.names event event.id) : Change fs db db' := by
  obtain ⟨rfl, -, hnew⟩ := begin_spec hb
  refine ⟨⟨?_, ?_, ?_, ?_, ?_⟩, ⟨id, [db.newRow event], by simp, fun r _ => .refl r, ?_⟩, ?_⟩
  · rw [map_append, nodup_append]
    refine ⟨h.seqs, by simp, ?_⟩
    intro q hq q' hq'
    obtain ⟨r, hr, rfl⟩ := mem_map.mp hq
    have := h.bound r hr
    simp only [map_cons, map_nil, mem_singleton] at hq'
    subst hq'
    show r.seq ≠ db.rows.length + 1
    omega
  · intro r hr
    rw [length_append, length_singleton]
    rcases mem_append.mp hr with hr | hr
    · exact Nat.le_succ_of_le (h.bound r hr)
    · obtain rfl := mem_singleton.mp hr
      exact Nat.le_refl _
  · rw [map_append, nodup_append]
    refine ⟨h.ids, by simp, ?_⟩
    intro q hq q' hq'
    obtain ⟨r, hr, rfl⟩ := mem_map.mp hq
    obtain rfl := mem_singleton.mp hq'
    exact hnew r hr
  · intro t q hq
    obtain ⟨r, hr, hrq⟩ := h.terms t q hq
    exact ⟨r, mem_append_left _ hr, hrq⟩
  · intro r hr
    rcases mem_append.mp hr with hr | hr
    · exact h.blank r hr
    · obtain rfl := mem_singleton.mp hr
      intro hd
      cases hd
  · intro r hr
    obtain rfl := mem_singleton.mp hr
    exact Nat.lt_succ_self _
  · intro f hf r hr haff
    rcases mem_append.mp hr with hr | hr
    · exact hs f hf r hr haff
    · obtain rfl := mem_singleton.mp hr
      obtain ⟨hcov, hle⟩ := haff
      unfold Scope.covers at hcov
      cases ha : f.scope.authorId with
      | some author =>
        have hle : db.rows.length + 1 ≤ f.upto := hle (by rw [ha]; rfl)
        have := hupto f hf
        omega
      | none =>
        rw [ha] at hcov
        simp only [Db.newRow, any_none, Bool.or_false, Bool.and_eq_true, contains_iff_mem] at hcov
        exact absurd ⟨ha, (of_decide_eq_true hcov.1.1).symm, (of_decide_eq_true hcov.1.2).symm, hcov.2⟩ (hnames f hf)

theorem Change.refl : Change fs db db := ⟨h, .refl _, hs⟩

omit hs

omit h

/-- An update of the last row alone. -/
theorem update_last (hb : ∀ r ∈ rows, r.seq ≤ rows.length) (hdb : db.rows = rows ++ [x])
    (p : Row → Bool) (hp : ∀ r, p r = true → r.seq = rows.length + 1) (f : Row → Row) :
    (db.update p f).rows = rows ++ [if p x = true then f x else x] := by
  have hold : rows.map (fun r => if p r = true then f r else r) = rows := by
    conv_rhs => rw [← map_id rows]
    refine map_congr_left fun r hr => if_neg fun h => ?_
    have := hb r hr
    have := hp r h
    omega
  show db.rows.map _ = _
  rw [hdb, map_append, hold]
  rfl

theorem grows_last {rows' : List Row} (hx : x.seq = rows.length + 1) (h : rows' = rows ++ [x]) :
    Grows rows rows' := by
  refine ⟨id, [x], by simp [h], fun r _ => .refl r, fun r hr => ?_⟩
  obtain rfl := mem_singleton.mp hr
  omega

/-- Finishing the last row changes that row at most. -/
theorem finish_last (hb : ∀ r ∈ rows, r.seq ≤ rows.length) (hx : x.seq = rows.length + 1)
    (hdb : db.rows = rows ++ [x]) (hseq : seq = rows.length + 1)
    (hf : finishConversation normalize db seq replyId reply = .ok (db', ok)) :
    ∃ y, y.seq = rows.length + 1 ∧ db'.rows = rows ++ [y] := by
  unfold finishConversation at hf
  split at hf
  · obtain ⟨rfl, -⟩ := Prod.mk.inj (Except.ok.inj hf)
    exact ⟨x, hx, hdb⟩
  · split at hf
    · obtain ⟨rfl, -⟩ := Prod.mk.inj (Except.ok.inj hf)
      exact ⟨x, hx, hdb⟩
    · split at hf
      · cases hf
      · obtain ⟨rfl, -⟩ := Prod.mk.inj (Except.ok.inj hf)
        refine ⟨_, ?_, update_last hb hdb _ (fun r hr => hseq ▸ of_decide_eq_true hr) _⟩
        split <;> exact hx

include h

include hs in
/-- A committed turn of the voice channel is begun and sent in one go. -/
theorem change_commit (hupto : ∀ f ∈ fs, f.upto ≤ db.rows.length)
    (hnames : (∃ r ∈ db.rows, r.message_id = event.id) ∨
      ∀ f ∈ fs, ¬ f.names event event.id ∧ ¬ f.names event replyId) :
    Change fs db (commitDeliveredConversation normalize db event replyId reply).1 := by
  unfold commitDeliveredConversation
  split
  · exact .refl h hs
  · rename_i hnone
    have hnames := hnames.resolve_left fun ⟨r, hr, hid⟩ => by
      simpa [hid] using List.find?_eq_none.mp hnone r hr
    split
    · exact .refl h hs
    · rename_i db₁ seq hb
      have hc₁ := change_begin h hs hb hupto fun f hf => (hnames f hf).1
      obtain ⟨hdb₁, hseq, -⟩ := begin_spec hb
      have hrows₁ : db₁.rows = db.rows ++ [db.newRow event] := by rw [hdb₁]
      split
      · -- The new row is pending, but nothing hangs on it here.
        have hc := change_fail hc₁.sound hc₁.safe seq
        refine ⟨hc.sound, ?_, hc.safe⟩
        refine grows_last ?_ (update_last h.bound hrows₁ _ (fun r hr => ?_) _)
        · split <;> rfl
        · simpa [hseq] using (and_eq_true_iff.mp hr).1
      · rename_i db₂ hm
        have hc₂ := change_sending hc₁.sound hc₁.safe hm
        have hrows₂ : db₂.rows = db.rows ++ [{ db.newRow event with state := .sending }] := by
          unfold markSending at hm
          split at hm
          · obtain rfl := some.inj hm
            rw [update_last h.bound hrows₁ _ (fun r hr => hseq ▸ of_decide_eq_true hr) _, if_pos]
            exact decide_eq_true (by rw [hseq]; rfl)
          · cases hm
        have hid : ∀ r ∈ db₂.rows, r.seq = seq → r.state = .sending → ∀ f ∈ fs, f.scope.authorId = none →
            f.scope.guildId = r.guild_id → f.scope.channelId = r.channel_id → replyId ∉ f.scope.messageIds := by
          intro r hr hrs _ f hf ha hgd hcd hmem
          have hlast : ({ db.newRow event with state := .sending } : Row) ∈ db₂.rows := by rw [hrows₂]; simp
          obtain rfl := hc₂.sound.eq_of_seq hr hlast (hrs.trans hseq)
          exact (hnames f hf).2 ⟨ha, hgd, hcd, hmem⟩
        split
        · exact ⟨hc₂.sound, grows_last rfl hrows₂, hc₂.safe⟩
        · rename_i db₃ hf
          have hc₃ := change_finish hc₂.sound hc₂.safe hid hf
          obtain ⟨x, hx, hrows₃⟩ := finish_last h.bound rfl hrows₂ hseq hf
          exact ⟨hc₃.sound, grows_last hx hrows₃, hc₃.safe⟩
        · rename_i db₃ hf
          have hc₃ := change_finish hc₂.sound hc₂.safe hid hf
          obtain ⟨x, hx, hrows₃⟩ := finish_last h.bound rfl hrows₂ hseq hf
          have hc := change_fail hc₃.sound hc₃.safe seq
          refine ⟨hc.sound, grows_last ?_ (update_last h.bound hrows₃ _ (fun r hr => ?_) _), hc.safe⟩
          · split <;> exact hx
          · simpa [hseq] using (and_eq_true_iff.mp hr).1

/-- A context has sent exchanges, each once. -/
theorem context_sent (normalize : Text → Text) (event : Event) (beforeSeq : Nat) :
    (memoryContext normalize db event beforeSeq).sources.Nodup ∧
      ∀ q ∈ (memoryContext normalize db event beforeSeq).sources, ∃ r ∈ db.rows, r.seq = q ∧ r.state = .sent := by
  have hsent : ∀ k, ∀ r ∈ sentBefore db event k, r.state = .sent := by
    intro k r hr
    have := (mem_filter.mp (mem_reverse.mp hr)).2
    exact of_decide_eq_true (and_eq_true_iff.mp this).2
  refine ⟨h.seqs.sublist (filter_sublist.map _), fun q hq => ?_⟩
  obtain ⟨r, hr, rfl⟩ := mem_map.mp hq
  obtain ⟨hmem, hr⟩ := mem_filter.mp hr
  refine ⟨r, hmem, rfl, ?_⟩
  rcases mem_append.mp (of_decide_eq_true hr) with hr | hr
  · exact hsent _ r (mem_of_mem_take hr)
  · exact hsent _ r (mem_filter.mp (mem_mergeSort.mp (mem_of_mem_take hr))).1

/-- As many sent rows among the sources as there are sources: all of them are sent. -/
theorem valid_sent {context : Context} (hv : validMemorySources db context = true) :
    ∀ q ∈ context.sources, ∃ r ∈ db.rows, r.seq = q ∧ r.state = .sent := by
  intro q hq
  rcases or_eq_true_iff.mp hv with he | hlen
  · rw [isEmpty_iff.mp he] at hq
    cases hq
  · have hlen := of_decide_eq_true hlen
    generalize hrows : db.rows.filter (fun r => r.state = .sent && context.sources.contains r.seq) = rows at hlen
    have hnodup : (rows.map Row.seq).Nodup := hrows ▸ h.seqs.sublist (filter_sublist.map _)
    have hsub : rows.map Row.seq ⊆ context.sources := by
      intro q hq
      obtain ⟨r, hr, rfl⟩ := mem_map.mp hq
      rw [← hrows] at hr
      simpa using (and_eq_true_iff.mp (mem_filter.mp hr).2).2
    have hperm := (hnodup.subperm hsub).perm_of_length_le (by simp [hlen])
    obtain ⟨r, hr, rfl⟩ := mem_map.mp (hperm.mem_iff.mpr hq)
    rw [← hrows] at hr
    obtain ⟨hr, hcond⟩ := mem_filter.mp hr
    exact ⟨r, hr, rfl, of_decide_eq_true (and_eq_true_iff.mp hcond).1⟩

end Tables

/-! ## What has happened -/

section Told

variable {rows rows' : List Row} {db db' : Db} {log : List Entry} {x : Entry} {f : Forget} {sources : List Nat}
  {event : Event} {seq : Nat} {id : Text}

/-- Rows of a context that was built at some time: sent then, and deleted since at most. -/
def Past (rows : List Row) (sources : List Nat) : Prop :=
  ∀ q ∈ sources, ∃ r ∈ rows, r.seq = q ∧ (r.state = .sent ∨ r.state = .deleted)

/-- Every entry is clear of what was forgotten before it. -/
def LogClear (rows : List Row) : List Entry → Prop
  | [] => True
  | x :: log => (∀ f ∈ log.filterMap Entry.forget?, x.Clear rows f) ∧ LogClear rows log

theorem Grows.length_le (h : Grows rows rows') : rows.length ≤ rows'.length := by
  obtain ⟨g, new, rfl, -⟩ := h
  simp

theorem Grows.knows (h : Grows rows rows') (hid : ∃ r ∈ rows, r.message_id = id) : ∃ r ∈ rows', r.message_id = id := by
  obtain ⟨g, new, rfl, hg, -⟩ := h
  obtain ⟨r, hr, hid⟩ := hid
  exact ⟨g r, mem_append_left _ (mem_map_of_mem hr), (hg r hr).message_id.trans hid⟩

theorem Grows.past (h : Grows rows rows') (hp : Past rows sources) : Past rows' sources := by
  obtain ⟨g, new, rfl, hg, -⟩ := h
  intro q hq
  obtain ⟨r, hr, hrq, hst⟩ := hp q hq
  have hm := hg r hr
  refine ⟨g r, mem_append_left _ (mem_map_of_mem hr), hm.seq.trans hrq, ?_⟩
  rcases hst with hst | hst
  · have hmoves := hm.state
    rw [hst] at hmoves
    generalize (g r).state = t at hmoves
    cases hmoves with
    | stays => exact .inl rfl
    | is_deleted => exact .inr rfl
  · exact .inr (hm.deleted hst)

/-- A row that was sent has its ids for good, so it is affected later only if it is affected now. -/
theorem Grows.clear (h : Grows db.rows rows') (hs : Sound db) (hp : Past db.rows x.sources) (hx : x.Clear db.rows f) :
    x.Clear rows' f := by
  obtain ⟨g, new, rfl, hg, hnew⟩ := h
  refine ⟨fun r' hr' hsrc haff => ?_, hx.2⟩
  obtain ⟨r₀, hr₀, hseq₀, hst₀⟩ := hp _ hsrc
  rcases mem_append.mp hr' with hr' | hr'
  · obtain ⟨r, hr, rfl⟩ := mem_map.mp hr'
    have hm := hg r hr
    obtain rfl := hs.eq_of_seq hr₀ hr (hseq₀.trans hm.seq)
    rcases hm.affects haff with haff | ⟨hsending, -⟩
    · exact hx.1 r₀ hr (hm.seq ▸ hsrc) haff
    · rcases hst₀ with hst₀ | hst₀ <;> rw [hst₀] at hsending <;> cases hsending
  · have := hnew r' hr'
    have := hs.bound r₀ hr₀
    omega

/-- What holds of the tables and of what has happened. -/
structure Told (db : Db) (log : List Entry) : Prop where
  sound : Sound db
  safe : Safe (log.filterMap Entry.forget?) db.rows
  upto : ∀ f ∈ log.filterMap Entry.forget?, f.upto ≤ db.rows.length
  past : ∀ x ∈ log, Past db.rows x.sources
  clear : LogClear db.rows log
  once : (log.filterMap Entry.generated?).Nodup
  known : ∀ id ∈ log.filterMap Entry.generated?, ∃ r ∈ db.rows, r.message_id = id

theorem LogClear.grows (h : Grows db.rows rows') (hs : Sound db) (hp : ∀ x ∈ log, Past db.rows x.sources)
    (hl : LogClear db.rows log) : LogClear rows' log := by
  induction log with
  | nil => trivial
  | cons x log ih =>
    exact ⟨fun f hf => h.clear hs (hp x mem_cons_self) (hl.1 f hf),
      ih (fun y hy => hp y (mem_cons_of_mem _ hy)) hl.2⟩

variable (h : Told db log)

include h

theorem Told.change (hc : Change (log.filterMap Entry.forget?) db db') : Told db' log where
  sound := hc.sound
  safe := hc.safe
  upto := fun f hf => Nat.le_trans (h.upto f hf) hc.grows.length_le
  past := fun x hx => hc.grows.past (h.past x hx)
  clear := h.clear.grows hc.grows h.sound h.past
  once := h.once
  known := fun id hid => hc.grows.knows (h.known id hid)

/-- One more thing happens, which is not a deletion. -/
theorem Told.push (hforget : x.forget? = none) (hpast : Past db.rows x.sources)
    (hclear : ∀ f ∈ log.filterMap Entry.forget?, x.Clear db.rows f)
    (hgen : ∀ id, x.generated? = some id → id ∉ log.filterMap Entry.generated? ∧ ∃ r ∈ db.rows, r.message_id = id) :
    Told db (x :: log) := by
  have hf : (x :: log).filterMap Entry.forget? = log.filterMap Entry.forget? := by simp [hforget]
  refine ⟨h.sound, hf ▸ h.safe, hf ▸ h.upto, ?_, ⟨hclear, h.clear⟩, ?_, ?_⟩
  · intro y hy
    rcases mem_cons.mp hy with rfl | hy
    · exact hpast
    · exact h.past y hy
  · cases hg : x.generated? with
    | none => simpa [filterMap_cons, hg] using h.once
    | some id => simpa [filterMap_cons, hg] using ⟨by simpa using (hgen id hg).1, h.once⟩
  · intro id hid
    cases hg : x.generated? with
    | none => exact h.known id (by simpa [filterMap_cons, hg] using hid)
    | some id' =>
      rw [filterMap_cons, hg] at hid
      rcases mem_cons.mp hid with rfl | hid
      · exact (hgen id hg).2
      · exact h.known id hid

theorem Told.forget (s : Scope) (hne : s.authorId ≠ none ∨ s.messageIds ≠ []) :
    Told (forgetScope db s) (.forgot ⟨s, db.rows.length⟩ :: log) := by
  have hc := change_forget h.sound h.safe s hne
  have hc' : Change (log.filterMap Entry.forget?) db (forgetScope db s) :=
    ⟨hc.sound, hc.grows, fun f hf => hc.safe f (mem_cons_of_mem _ hf)⟩
  have ht := h.change hc'
  refine ⟨hc.sound, hc.safe, ?_, ?_, ⟨fun f _ => ⟨fun r _ hr => (by cases hr), fun e he => (by cases he)⟩, ht.clear⟩,
    ht.once, ht.known⟩
  · intro f hf
    rcases mem_cons.mp hf with rfl | hf
    · exact hc.grows.length_le
    · exact ht.upto f hf
  · intro y hy
    rcases mem_cons.mp hy with rfl | hy
    · exact fun q hq => by cases hq
    · exact ht.past y hy

/-- What is affected is not among sent rows. -/
theorem Told.clear_of_sent (hs : ∀ q ∈ sources, ∃ r ∈ db.rows, r.seq = q ∧ r.state = .sent) (hf : f ∈ log.filterMap Entry.forget?) :
    ∀ r ∈ db.rows, r.seq ∈ sources → ¬ f.affects r := by
  intro r hr hsrc haff
  obtain ⟨r', hr', hseq, hst⟩ := hs _ hsrc
  have hd := h.safe f hf r hr haff
  rw [← h.sound.eq_of_seq hr' hr hseq, hst] at hd
  cases hd

omit h

theorem LogClear.at {later earlier : List Entry} (h : LogClear rows (later ++ .forgot f :: earlier)) :
    ∀ x ∈ later, x.Clear rows f := by
  induction later with
  | nil => exact fun x hx => by cases hx
  | cons y later ih =>
    intro x hx
    rcases mem_cons.mp hx with rfl | hx
    · exact h.1 f (by simp [Entry.forget?])
    · exact ih h.2 x hx

end Told

/-! ## Steps -/

section Steps

variable {normalize : Text → Text} {s s' : Bot} {db db' : Db} {log : List Entry} {event : Event} {seq : Nat}
  {context : Context}

def IsRowOf (rows : List Row) (event : Event) (seq : Nat) : Prop :=
  ∃ r ∈ rows, r.seq = seq ∧ r.message_id = event.id ∧ r.guild_id = event.guildId ∧ r.channel_id = event.channelId

/-- What holds of the mention that is being answered. -/
def TaskOk (rows : List Row) (log : List Entry) : Option Task → Prop
  | some (.generating event seq context) => IsRowOf rows event seq ∧ Past rows context.sources ∧
      event.id ∉ log.filterMap Entry.generated?
  | some (.sending event seq _) => IsRowOf rows event seq
  | some (.forgetting _ _) | some (.notifying _) | none => True

structure Inv (s : Bot) : Prop where
  told : Told s.db s.log
  task : TaskOk s.db.rows s.log s.task
  voice : ∀ p ∈ s.voice, Past s.db.rows p.2.sources

variable {rows rows' : List Row} {task : Option Task} {id : Text}

theorem Grows.isRowOf (h : Grows rows rows') (hr : IsRowOf rows event seq) :
    IsRowOf rows' event seq := by
  obtain ⟨g, new, rfl, hg, -⟩ := h
  obtain ⟨r, hr, hseq, hid, hgd, hcd⟩ := hr
  have hm := hg r hr
  exact ⟨g r, mem_append_left _ (mem_map_of_mem hr), hm.seq.trans hseq, hm.message_id.trans hid,
    hm.guild_id.trans hgd, hm.channel_id.trans hcd⟩

theorem Grows.taskOk (h : Grows rows rows') (ht : TaskOk rows log task) :
    TaskOk rows' log task := by
  cases task with
  | none => trivial
  | some task =>
    cases task with
    | generating => exact ⟨h.isRowOf ht.1, h.past ht.2.1, ht.2.2⟩
    | sending => exact h.isRowOf ht
    | forgetting => trivial
    | notifying => trivial

theorem TaskOk.push {x : Entry} (ht : TaskOk rows log task)
    (hx : x.generated? = none) : TaskOk rows (x :: log) task := by
  cases task with
  | none => trivial
  | some task =>
    cases task with
    | generating => exact ⟨ht.1, ht.2.1, by simpa [hx] using ht.2.2⟩
    | sending => exact ht
    | forgetting => trivial
    | notifying => trivial

/-- The tables change, and nothing is told. -/
theorem Inv.change (h : Inv s) (hc : Change s.forgets s.db db) (ht : TaskOk db.rows s.log task) :
    Inv { s with db := db, task := task } :=
  ⟨h.told.change hc, ht, fun p hp => hc.grows.past (h.voice p hp)⟩

theorem Bot.unnamed_spec (h : s.unnamed event id = true) : ∀ f ∈ s.forgets, ¬ f.names event id := by
  intro f hf
  simpa using all_eq_true.mp h f hf

theorem Bot.knows_iff : s.knows id = true ↔ ∃ r ∈ s.db.rows, r.message_id = id := by
  simp [Bot.knows]

theorem inv_forget (h : Inv s) {f : Scope} (hne : f.authorId ≠ none ∨ f.messageIds ≠ []) :
    Inv (s.forget f) ∧ Grows s.db.rows (s.forget f).db.rows := by
  have hg := (change_forget h.told.sound h.told.safe f hne).grows
  exact ⟨⟨h.told.forget f hne, (hg.taskOk h.task).push rfl, fun p hp => hg.past (h.voice p hp)⟩, hg⟩

theorem Grows.trans_last {x : Row} (hx : x.seq = rows.length + 1)
    (h : Grows (rows ++ [x]) rows') : Grows rows rows' := by
  obtain ⟨g, new, rfl, hg, hnew⟩ := h
  refine ⟨g, g x :: new, by simp, fun r hr => hg r (mem_append_left _ hr), fun r hr => ?_⟩
  rcases mem_cons.mp hr with rfl | hr
  · have := (hg x (by simp)).seq
    omega
  · have := hnew r hr
    rw [length_append] at this
    omega

theorem inv_begin (h : Inv s) (htask : s.task = none) (hc : s.knows event.id = true ∨ s.unnamed event event.id = true) :
    Inv (s.begin normalize event) ∧ Grows s.db.rows (s.begin normalize event).db.rows := by
  unfold Bot.begin
  split
  · exact ⟨h, .refl _⟩
  · rename_i db seq hb
    obtain ⟨hdb, hseq, hnew⟩ := begin_spec hb
    have hnames : ∀ f ∈ s.forgets, ¬ f.names event event.id := by
      refine Bot.unnamed_spec (hc.resolve_left fun hk => ?_)
      obtain ⟨r, hr, hid⟩ := Bot.knows_iff.mp hk
      exact hnew r hr hid
    have hchange := change_begin h.told.sound h.told.safe hb h.told.upto hnames
    have hinv : Inv { s with db := db, task := none } := h.change hchange trivial
    have hinv : Inv { s with db := db } := htask ▸ hinv
    have hrow : db.rows = s.db.rows ++ [s.db.newRow event] := by rw [hdb]
    have hfresh : event.id ∉ s.log.filterMap Entry.generated? := by
      intro hid
      obtain ⟨r, hr, hrid⟩ := h.told.known _ hid
      exact hnew r hr hrid
    split
    · have hauthor : (⟨event.guildId, event.channelId, [], some event.authorId⟩ : Scope).authorId ≠ none := by simp
      obtain ⟨hf, hg⟩ := inv_forget hinv (.inl hauthor)
      refine ⟨⟨hf.told, trivial, hf.voice⟩, ?_⟩
      exact Grows.trans_last rfl (hrow ▸ hg)
    · obtain ⟨-, hsent⟩ := context_sent hchange.sound normalize event seq
      have hpast : Past db.rows (memoryContext normalize db event seq).sources := fun q hq => by
        obtain ⟨r, hr, hrq, hst⟩ := hsent q hq
        exact ⟨r, hr, hrq, .inl hst⟩
      refine ⟨⟨hinv.told.push rfl hpast (fun f hf => ⟨hinv.told.clear_of_sent hsent hf, fun e he => by cases he⟩)
        (fun id hid => by cases hid), ⟨?_, hpast, ?_⟩, hinv.voice⟩, hchange.grows⟩
      · exact ⟨s.db.newRow event, by simp [hrow], hseq ▸ rfl, rfl, rfl, rfl⟩
      · simpa [Entry.generated?] using hfresh

/-- What a step has to keep. -/
def Holds (s s' : Bot) : Prop := Inv s' ∧ Grows s.db.rows s'.db.rows

theorem Inv.holds (h : Inv s) (hc : Change s.forgets s.db db) (ht : TaskOk db.rows s.log task) :
    Holds s { s with db := db, task := task } := ⟨h.change hc ht, hc.grows⟩

/-- The exchange of an active row is not forgotten. -/
theorem Told.active_unnamed (h : Told db log) (hrow : IsRowOf db.rows event seq) (ha : isActive db seq = true)
    {f : Forget} (hf : f ∈ log.filterMap Entry.forget?) : ¬ f.names event event.id := by
  intro hn
  obtain ⟨r, hr, hseq, hid, hgd, hcd⟩ := hrow
  obtain ⟨r', hr', hseq', hst⟩ := h.sound.active ha
  obtain rfl := h.sound.eq_of_seq hr' hr (hseq'.trans hseq.symm)
  have haff : f.affects r' := by
    refine ⟨?_, fun hs => by rw [hn.1] at hs; cases hs⟩
    unfold Scope.covers
    rw [hn.1]
    simp [hgd, hcd, hid, hn.2.1, hn.2.2.1, hn.2.2.2]
  have hd := h.safe f hf r' hr haff
  rw [hst] at hd
  cases hd

theorem holds_answer (h : Inv s) (htask : s.task = some (.generating event seq context)) {reply : Option Text}
    (hc : reply = none → s.unnamed event event.id = true) : Holds s (s.answer event seq context reply) := by
  have ht := h.task
  rw [htask] at ht
  obtain ⟨hrow, hpast, hfresh⟩ := ht
  cases reply with
  | none =>
    have hfail := change_fail h.told.sound h.told.safe seq
    refine ⟨⟨(h.told.change hfail).push rfl (fun q hq => by cases hq) (fun f hf => ⟨fun r _ hr => (by cases hr), ?_⟩)
      (fun id hid => by cases hid), trivial, fun p hp => hfail.grows.past (h.voice p hp)⟩, hfail.grows⟩
    intro e he
    obtain rfl := some.inj he
    exact Bot.unnamed_spec (hc rfl) f hf
  | some reply =>
    have hknown : ∃ r ∈ s.db.rows, r.message_id = event.id := by
      obtain ⟨r, hr, -, hid, -⟩ := hrow
      exact ⟨r, hr, hid⟩
    have htold : Told s.db (.generated event.id :: s.log) :=
      h.told.push rfl (fun q hq => by cases hq) (fun f _ => ⟨fun r _ hr => (by cases hr), fun e he => by cases he⟩)
        fun id hid => by
          obtain rfl := some.inj hid
          exact ⟨hfresh, hknown⟩
    simp only [Bot.answer]
    split
    · have hfail := change_fail h.told.sound h.told.safe seq
      exact ⟨⟨htold.change hfail, trivial, fun p hp => hfail.grows.past (h.voice p hp)⟩, hfail.grows⟩
    · rename_i hvalid
      have hvalid : validContext s.db seq context = true := by simpa using hvalid
      obtain ⟨hactive, hvalid⟩ := and_eq_true_iff.mp hvalid
      split
      · exact ⟨⟨htold, trivial, h.voice⟩, .refl _⟩
      · rename_i db hm
        have hsent := change_sending h.told.sound h.told.safe hm
        have hhanded : Told s.db (.handed event context.sources :: .generated event.id :: s.log) := by
          refine htold.push rfl hpast (fun f hf => ⟨?_, ?_⟩) (fun id hid => by cases hid)
          · exact htold.clear_of_sent (valid_sent h.told.sound hvalid) hf
          · intro e he
            obtain rfl := some.inj he
            exact htold.active_unnamed hrow hactive hf
        refine ⟨⟨hhanded.change hsent, hsent.grows.isRowOf hrow, ?_⟩, hsent.grows⟩
        exact fun p hp => hsent.grows.past (h.voice p hp)

theorem holds_finish (h : Inv s) {reply : Text} (htask : s.task = some (.sending event seq reply))
    {replyId : Option Text} (hc : ∀ id, replyId = some id →
      (s.db.find seq).any (·.state = .sending) = false ∨ s.unnamed event id = true) :
    Holds s (s.finish normalize seq reply replyId) := by
  have hrow := h.task
  rw [htask] at hrow
  have hfail := change_fail h.told.sound h.told.safe seq
  cases replyId with
  | none => exact h.holds hfail trivial
  | some id =>
    simp only [Bot.finish]
    split
    · exact h.holds hfail trivial
    · rename_i db ok hf
      refine h.holds (change_finish h.told.sound h.told.safe (fun r hr hrs hst f hf ha hgd hcd hmem => ?_) hf) trivial
      rcases hc id rfl with hno | hun
      · rw [h.told.sound.find_eq.mpr ⟨hr, hrs⟩] at hno
        simp [hst] at hno
      · obtain ⟨r', hr', hseq', -, hgd', hcd'⟩ := hrow
        obtain rfl := h.told.sound.eq_of_seq hr hr' (hrs.trans hseq'.symm)
        exact Bot.unnamed_spec hun f hf ⟨ha, hgd.trans hgd', hcd.trans hcd', hmem⟩

/-- What one step keeps. -/
theorem step_holds (h : Inv s) {a : Action} (ha : careful s a = true) (hstep : step normalize s a = some s') :
    Holds s s' := by
  have hrefl : Change s.forgets s.db s.db := .refl h.told.sound h.told.safe
  cases a with
  | accept event =>
    simp only [step] at hstep
    split at hstep <;> obtain rfl := some.inj hstep
    · exact ⟨h, .refl _⟩
    · exact ⟨⟨h.told, h.task, h.voice⟩, .refl _⟩
  | start =>
    simp only [step] at hstep
    split at hstep
    · rename_i event rest htask hqueue
      obtain rfl := some.inj hstep
      simp only [careful, hqueue, or_eq_true] at ha
      have hinv : Inv { s with queue := rest } := ⟨h.told, h.task, h.voice⟩
      exact inv_begin hinv htask ha
    · cases hstep
  | generated reply =>
    simp only [step] at hstep
    split at hstep
    · rename_i event seq context htask
      obtain rfl := some.inj hstep
      refine holds_answer h htask fun hr => ?_
      subst hr
      simpa [careful, htask] using ha
    · cases hstep
  | delivered replyId =>
    simp only [step] at hstep
    split at hstep
    · rename_i event seq reply htask
      obtain rfl := some.inj hstep
      refine holds_finish h htask fun id hr => ?_
      subst hr
      simpa [careful, htask] using ha
    · cases hstep
  | noticed ok =>
    simp only [step] at hstep
    split at hstep
    · obtain rfl := some.inj hstep
      exact h.holds hrefl trivial
    · obtain rfl := some.inj hstep
      cases ok with
      | true => exact h.holds hrefl trivial
      | false => exact h.holds (change_fail h.told.sound h.told.safe _) trivial
    · cases hstep
  | forget guildId channelId ids =>
    simp only [step] at hstep
    split at hstep <;> obtain rfl := some.inj hstep
    · exact ⟨h, .refl _⟩
    · rename_i hne
      exact inv_forget h (.inr fun he => hne (.inr (.inr he)))
  | voiceReply event =>
    simp only [step] at hstep
    split at hstep <;> obtain rfl := some.inj hstep
    · exact ⟨h, .refl _⟩
    · obtain ⟨-, hsent⟩ := context_sent h.told.sound normalize event (s.db.rows.length + 1)
      have hpast : Past s.db.rows (memoryContext normalize s.db event (s.db.rows.length + 1)).sources := fun q hq => by
        obtain ⟨r, hr, hrq, hst⟩ := hsent q hq
        exact ⟨r, hr, hrq, .inl hst⟩
      refine ⟨⟨h.told.push rfl hpast (fun f hf => ⟨h.told.clear_of_sent hsent hf, fun e he => by cases he⟩)
        (fun id hid => by cases hid), h.task.push rfl, fun p hp => ?_⟩, .refl _⟩
      rcases mem_append.mp hp with hp | hp
      · exact h.voice p hp
      · obtain rfl := mem_singleton.mp hp
        exact hpast
  | voiceGenerated turn reply =>
    simp only [step] at hstep
    split at hstep
    · cases hstep
    · rename_i context hturn
      have hvoice : ∀ p ∈ s.voice.eraseIdx turn, Past s.db.rows p.2.sources := fun p hp =>
        h.voice p (mem_of_mem_eraseIdx hp)
      split at hstep <;> obtain rfl := some.inj hstep
      · rename_i hvalid
        have hsent := valid_sent h.told.sound (and_eq_true_iff.mp hvalid).2
        refine ⟨⟨h.told.push rfl (h.voice _ (mem_of_getElem? hturn)) (fun f hf => ?_)
          (fun id hid => by cases hid), h.task.push rfl, hvoice⟩, .refl _⟩
        exact ⟨h.told.clear_of_sent hsent hf, fun e he => by cases he⟩
      · exact ⟨⟨h.told, h.task, hvoice⟩, .refl _⟩
  | voiceCommit event replyId reply =>
    obtain rfl := some.inj hstep
    have hnames : (∃ r ∈ s.db.rows, r.message_id = event.id) ∨
        ∀ f ∈ s.forgets, ¬ f.names event event.id ∧ ¬ f.names event replyId := by
      simp only [careful, or_eq_true, and_eq_true] at ha
      rcases ha with hk | ⟨hid, hreply⟩
      · exact .inl (Bot.knows_iff.mp hk)
      · exact .inr fun f hf => ⟨Bot.unnamed_spec hid f hf, Bot.unnamed_spec hreply f hf⟩
    have hc : Change s.forgets s.db (commitDeliveredConversation normalize s.db event replyId reply).1 :=
      change_commit h.told.sound h.told.safe h.told.upto hnames
    exact ⟨⟨h.told.change hc, hc.grows.taskOk h.task, fun p hp => hc.grows.past (h.voice p hp)⟩, hc.grows⟩
  | restart =>
    obtain rfl := some.inj hstep
    have hc := change_initialize h.told.sound h.told.safe
    exact ⟨⟨h.told.change hc, trivial, fun p hp => by cases hp⟩, hc.grows⟩

theorem inv_start : Inv {} where
  told := ⟨⟨by simp, by simp, by simp, by simp, by simp⟩, by simp [Safe], by simp, by simp, trivial, by simp, by simp⟩
  task := trivial
  voice := by simp

theorem reach_inv (h : Reach normalize s) : Inv s := by
  induction h with
  | start => exact inv_start
  | step _ ha hstep ih => exact (step_holds ih ha hstep).1

theorem Inv.forgotten (h : Inv s) : Forgotten s where
  once := h.told.once
  gone := fun f hf r hr haff => by
    have hd := h.told.safe f hf r hr haff
    refine ⟨h.told.sound.blank r hr hd, fun t ht => ?_⟩
    obtain ⟨r', hr', hseq, hst⟩ := h.told.sound.terms t r.seq ht
    rw [h.told.sound.eq_of_seq hr' hr hseq, hd] at hst
    cases hst
  unused := fun later f earlier hlog => by
    have hc := h.told.clear
    rw [hlog] at hc
    exact hc.at

end Steps

/-! ## Runs -/

/-- **Forgotten messages do not come back** in the runs whose steps meet the condition, and an exchange goes its way:
from pending to sending to sent, failed from the first two, deleted from any. -/
theorem forgotten_stays (normalize : Text → Text) {s : Bot} (h : Reach normalize s) :
    Forgotten s ∧ ∀ a s', careful s a = true → step normalize s a = some s' → Keeps s.db.rows s'.db.rows :=
  ⟨(reach_inv h).forgotten, fun _ _ ha hstep => (step_holds (reach_inv h) ha hstep).2.keeps⟩

/-- A run whose steps meet the condition. -/
def carefulRun (normalize : Text → Text) : Bot → List Action → Option Bot
  | s, [] => some s
  | s, a :: rest => if careful s a then (step normalize s a).bind (carefulRun normalize · rest) else none

theorem reach_of_careful {normalize : Text → Text} {s s' : Bot} {actions : List Action} (hs : Reach normalize s)
    (h : carefulRun normalize s actions = some s') : Reach normalize s' := by
  induction actions generalizing s with
  | nil => exact some.inj h ▸ hs
  | cons a rest ih =>
    rw [carefulRun] at h
    split at h
    · obtain ⟨t, ht, h⟩ := bind_eq_some_iff.mp h
      exact ih (hs.step ‹_› ht) h
    · cases h

/-- A message of one member in one channel. -/
def mention (id : Nat) : Event := ⟨[id], [1], [2], [3], [4], [5], none, 0⟩

/-- The reply to a first mention is deleted while the second one, with it in its context, is being answered. -/
def replyDeleted : List Action :=
  [.accept (mention 10), .start, .generated (some [6]), .delivered (some [20]), .accept (mention 11), .start,
    .forget [1] [2] [[20]], .generated (some [7])]

theorem forgotten_stays_deleted : ∃ s, carefulRun id {} replyDeleted = some s ∧ Forgotten s ∧
    s.db.rows.map Row.state = [.deleted, .failed] := by
  have hstates : (carefulRun id {} replyDeleted).map (·.db.rows.map Row.state) = some [.deleted, .failed] := by
    decide +kernel
  obtain ⟨s, hs, hr⟩ := map_eq_some_iff.mp hstates
  exact ⟨s, hs, (forgotten_stays id (reach_of_careful .start hs)).1, hr⟩

/-- The second mention is deleted while it waits for the first one to be answered. -/
def lateDeletion : List Action :=
  [.accept (mention 10), .start, .accept (mention 11), .forget [1] [2] [[11]], .generated (some [6]),
    .delivered (some [20]), .start, .generated (some [7])]

/-- It is stored and answered all the same. -/
theorem deleted_mention_answered : ∃ s, acts id {} lateDeletion = some s ∧ ¬ Forgotten s := by
  have hstored : (acts id {} lateDeletion).any (fun s =>
      decide (∃ f ∈ s.forgets, ∃ r ∈ s.db.rows, f.affects r ∧ r.content ≠ [])) = true := by
    decide +kernel
  obtain ⟨s, hs, hstored⟩ := (any_eq_true _ _).mp hstored
  obtain ⟨f, hf, r, hr, ha, hc⟩ := of_decide_eq_true hstored
  exact ⟨s, hs, fun h => hc (h.gone f hf r hr ha).1.content⟩

end Docich.DiscordChat
