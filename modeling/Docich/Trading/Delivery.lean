import Docich.Trading.Notifications
import Mathlib.Data.List.TakeWhile

/-!
# What is delivered

The undelivered events of the journal are the ones whose ids are not stored as delivered. A call sends a first part of
them, in order, up to the first failure; an append puts an event behind them. So the sends that succeed are a
subsequence of what was appended.
-/

namespace Docich.Trading

open List

/-! ## One pass -/

/-- The sends of a channel over the events that it has not yet delivered. -/
def attemptsOf (ok : PublicEvent → Bool) : List PublicEvent → List Attempt
  | [] => []
  | item :: items => if ok item then ⟨item.eventId, true⟩ :: attemptsOf ok items else [⟨item.eventId, false⟩]

theorem succeeded_append (a b : List Attempt) : succeeded (a ++ b) = succeeded a ++ succeeded b := by
  simp [succeeded]

theorem succeeded_attemptsOf (ok : PublicEvent → Bool) (items : List PublicEvent) :
    succeeded (attemptsOf ok items) = (items.takeWhile ok).map PublicEvent.eventId := by
  induction items with
  | nil => rfl
  | cons item items ih =>
    by_cases h : ok item
    · rw [attemptsOf, if_pos h, takeWhile_cons_of_pos h, map_cons, ← ih]
      rfl
    · rw [attemptsOf, if_neg h, takeWhile_cons_of_neg h]
      rfl

variable {eventId : String} {s : Store}

theorem mem_bounded {ids sourceIds : List String} :
    eventId ∈ bounded ids sourceIds ↔ eventId ∈ sourceIds ∧ eventId ∈ ids := by
  simp [bounded]

def isNew (ids : List String) (item : PublicEvent) : Bool := item.eventId ∉ ids

section Pass

variable {sourceIds : List String} {ok : PublicEvent → Bool} {p : Pass} {items : List PublicEvent}

theorem foldl_overlayStep_blocked (h : p.blocked = true) : items.foldl (overlayStep sourceIds ok) p = p := by
  induction items with
  | nil => rfl
  | cons item items ih =>
    rw [foldl_cons, overlayStep, if_neg (by simp [h])]
    exact ih

variable (ok) in
/-- The pass sends the new events up to the first failure and marks those that it sent. -/
theorem foldl_overlayStep (hb : p.blocked = false) (hnodup : (items.map PublicEvent.eventId).Nodup)
    (hsource : ∀ item ∈ items, item.eventId ∈ sourceIds) :
    (items.foldl (overlayStep sourceIds ok) p).attempts = p.attempts ++ attemptsOf ok (items.filter (isNew p.ids)) ∧
      ∀ eventId ∈ sourceIds, eventId ∈ (items.foldl (overlayStep sourceIds ok) p).ids ↔
        eventId ∈ p.ids ∨ eventId ∈ ((items.filter (isNew p.ids)).takeWhile ok).map PublicEvent.eventId := by
  induction items generalizing p with
  | nil => simp [attemptsOf]
  | cons item items ih =>
    rw [map_cons, nodup_cons] at hnodup
    have hrest : ∀ i ∈ items, i.eventId ∈ sourceIds := fun i hi => hsource i (mem_cons_of_mem _ hi)
    rw [foldl_cons]
    by_cases hin : item.eventId ∈ p.ids
    · rw [overlayStep, if_neg (by simp [hin]), filter_cons_of_neg (by simp [isNew, hin])]
      exact ih hb hnodup.2 hrest
    rw [overlayStep, if_pos ⟨hin, by simp [hb]⟩, filter_cons_of_pos (by simp [isNew, hin]), Pass.send]
    by_cases hok : ok item
    · -- a send that succeeds marks the event and leaves the others as they are
      have hnew : items.filter (isNew (bounded (p.ids ++ [item.eventId]) sourceIds)) = items.filter (isNew p.ids) := by
        apply filter_congr
        intro i hi
        have hne : i.eventId ≠ item.eventId := fun he => hnodup.1 (he ▸ mem_map_of_mem hi)
        simp [isNew, mem_bounded, hrest i hi, hne]
      rw [if_pos hok, attemptsOf, if_pos hok, takeWhile_cons_of_pos hok]
      obtain ⟨hattempts, hids⟩ := ih (p := { p.mark sourceIds item with
        attempts := p.attempts ++ [⟨item.eventId, true⟩] }) hb hnodup.2 hrest
      simp only [Pass.mark, hnew] at hattempts hids
      refine ⟨by rw [Pass.mark, hattempts, append_assoc]; rfl, ?_⟩
      intro eventId hmem
      rw [Pass.mark, hids eventId hmem, mem_bounded, map_cons, mem_cons, mem_append, mem_singleton]
      simp only [hmem, true_and, or_assoc]
    · rw [if_neg hok, foldl_overlayStep_blocked rfl, attemptsOf, if_neg hok, takeWhile_cons_of_neg hok]
      exact ⟨rfl, by simp⟩

end Pass

/-! ## One step -/

variable {call : Call} {event : PublicEvent} {maxEvents : ℕ} {ids : DeliveryState → List String}
    {s' : Store} {op op' : Op} {ops ops' : List Op}

theorem step_disabled (hn : call.notificationsEnabled = false) :
    s.step (.deliver call) = (s, ⟨[], [], []⟩) := by
  simp [Store.step, deliverPendingNotifications, hn]

/-- What the first delivery stores. -/
def DeliveryState.bootstrap (call : Call) (journal : Journal) : DeliveryState :=
  ⟨eventIds journal, eventIds journal, call.now, eventIds_nodup _, eventIds_nodup _⟩

/-- What a later delivery stores. -/
def DeliveryState.next (call : Call) (journal : Journal) (state : DeliveryState) : DeliveryState :=
  ⟨bounded (overlayPass journal call.overlayOk state.overlayIds).ids (eventIds journal),
    bounded (speechPass journal call state.speechIds).ids (eventIds journal), call.now, bounded_nodup _ _,
    bounded_nodup _ _⟩

theorem step_bootstrap (hn : call.notificationsEnabled = true) (hd : s.delivery = none) :
    s.step (.deliver call) = (⟨s.journal, some (.bootstrap call s.journal)⟩, ⟨[], [], []⟩) := by
  simp [Store.step, deliverPendingNotifications, hn, hd, DeliveryState.bootstrap]

theorem step_running {state : DeliveryState} (hn : call.notificationsEnabled = true)
    (hd : s.delivery = some state) : s.step (.deliver call) = (⟨s.journal, some (state.next call s.journal)⟩,
      ⟨[], (overlayPass s.journal call.overlayOk state.overlayIds).attempts,
        (speechPass s.journal call state.speechIds).attempts⟩) := by
  simp [Store.step, deliverPendingNotifications, hn, hd, DeliveryState.next]

/-! ## The undelivered events -/

def Store.undelivered (s : Store) : List PublicEvent :=
  match s.delivery with
  | none => []
  | some state => s.journal.rows.filter (isNew state.overlayIds)

theorem mem_eventIds {journal : Journal} {item : PublicEvent} (h : item ∈ journal.rows) :
    item.eventId ∈ eventIds journal := mem_map_of_mem h

/-- What a call does to the overlay. -/
structure Delivered (call : Call) (s : Store) : Prop where
  overlay : (s.step (.deliver call)).2.overlay = attemptsOf call.overlayOk s.undelivered
  rest : (s.step (.deliver call)).1.undelivered = s.undelivered.dropWhile call.overlayOk
  journal : (s.step (.deliver call)).1.journal = s.journal
  accepted : (s.step (.deliver call)).2.accepted = []

/-- The events that were not marked are those after the first failure. -/
theorem filter_isNew_marked {rows : List PublicEvent} (hnodup : (rows.map PublicEvent.eventId).Nodup)
    (ids marked : List String) (ok : PublicEvent → Bool)
    (h : ∀ item ∈ rows, item.eventId ∈ marked ↔ item.eventId ∈ ids ∨
      item.eventId ∈ ((rows.filter (isNew ids)).takeWhile ok).map PublicEvent.eventId) :
    rows.filter (isNew marked) = (rows.filter (isNew ids)).dropWhile ok := by
  have hsplit := (takeWhile_append_dropWhile (p := ok) (l := rows.filter (isNew ids))).symm
  generalize hsent : (rows.filter (isNew ids)).takeWhile ok = sent at h hsplit
  generalize hleft : (rows.filter (isNew ids)).dropWhile ok = left at hsplit
  have hsub : ((sent ++ left).map PublicEvent.eventId).Nodup :=
    hsplit ▸ hnodup.sublist (filter_sublist.map _)
  rw [map_append] at hsub
  have hdisjoint := disjoint_of_nodup_append hsub
  have hfilter : rows.filter (isNew marked) = (rows.filter (isNew ids)).filter
      fun item => item.eventId ∉ sent.map PublicEvent.eventId := by
    rw [filter_filter]
    apply filter_congr
    intro item hitem
    simp only [isNew, h item hitem, not_or, Bool.decide_and, Bool.and_comm]
  rw [hfilter, hsplit, filter_append]
  have hsent' : sent.filter (fun item => item.eventId ∉ sent.map PublicEvent.eventId) = [] := by
    apply filter_eq_nil_iff.mpr
    intro item hitem
    simpa using ⟨item, hitem, rfl⟩
  have hleft' : left.filter (fun item => item.eventId ∉ sent.map PublicEvent.eventId) = left := by
    apply filter_eq_self.mpr
    intro item hitem
    exact decide_eq_true fun hmem => hdisjoint hmem (mem_map_of_mem hitem)
  rw [hsent', hleft', nil_append]

theorem delivered (hn : call.notificationsEnabled = true) : Delivered call s := by
  cases hd : s.delivery with
  | none =>
    have hu : s.undelivered = [] := by simp [Store.undelivered, hd]
    have hstep := step_bootstrap hn hd
    refine ⟨?_, ?_, by rw [hstep], by rw [hstep]⟩
    · rw [hstep, hu]
      rfl
    · rw [hstep, hu]
      apply filter_eq_nil_iff.mpr
      intro item hitem
      simp [isNew, DeliveryState.bootstrap, mem_eventIds hitem]
  | some state =>
    have hu : s.undelivered = s.journal.rows.filter (isNew state.overlayIds) := by simp [Store.undelivered, hd]
    have hstep := step_running hn hd
    -- the pass starts from the stored ids of the journal
    have hstart : s.journal.rows.filter (isNew (bounded state.overlayIds (eventIds s.journal))) = s.undelivered := by
      rw [hu]
      apply filter_congr
      intro item hitem
      simp [isNew, mem_bounded, mem_eventIds hitem]
    obtain ⟨hattempts, hids⟩ := foldl_overlayStep call.overlayOk
      (p := .start (bounded state.overlayIds (eventIds s.journal))) rfl s.journal.nodup fun _ => mem_eventIds
    refine ⟨?_, ?_, by rw [hstep], by rw [hstep]⟩
    · rw [hstep, ← hstart]
      show (overlayPass s.journal call.overlayOk state.overlayIds).attempts = _
      rw [overlayPass, hattempts]
      rfl
    · rw [hstep, ← hstart]
      apply filter_isNew_marked s.journal.nodup
      intro item hitem
      rw [DeliveryState.next, mem_bounded, overlayPass, hids _ (mem_eventIds hitem)]
      simp [Pass.start, mem_eventIds hitem]

theorem lastEvents_rows (journal : Journal) (n : ℕ) :
    (lastEvents journal n).rows = journal.rows.drop (journal.rows.length - n) := rfl

/-- An append either leaves the store, or puts a new event behind the rows and drops rows from their front. -/
theorem step_append (s : Store) (event : PublicEvent) (maxEvents : ℕ) :
    ((maxEvents = 0 ∨ event.eventId ∈ eventIds s.journal) ∧ s.step (.append event maxEvents) = (s, ⟨[], [], []⟩)) ∨
    (event.eventId ∉ eventIds s.journal ∧
      (s.step (.append event maxEvents)).1.delivery = s.delivery ∧
      (s.step (.append event maxEvents)).1.journal.rows =
        (s.journal.rows ++ [event]).drop (s.journal.rows.length + 1 - maxEvents) ∧
      (s.step (.append event maxEvents)).2 = ⟨if s.delivery.isSome then [event.eventId] else [], [], []⟩) := by
  unfold Store.step
  dsimp only
  by_cases hm : maxEvents = 0
  · simp [appendPublicEvent, hm]
  cases hi : s.journal.insert? event with
  | none =>
    have htaken : event.eventId ∈ eventIds s.journal := by
      by_contra hfree
      have hfree' : event.eventId ∉ s.journal.rows.map PublicEvent.eventId := hfree
      simp [Durable.Table.insert?, hfree'] at hi
    exact .inl ⟨.inr htaken, by simp [appendPublicEvent, hm, hi]⟩
  | some records =>
    obtain ⟨hrows, hfresh⟩ := Durable.Table.insert?_eq_some hi
    refine .inr ⟨?_, ?_⟩
    · intro hmem
      obtain ⟨b, hb, he⟩ := mem_map.mp hmem
      exact hfresh b hb he
    · have happend : appendPublicEvent s.journal event maxEvents = .ok (lastEvents records maxEvents, true) := by
        simp [appendPublicEvent, hm, hi]
      rw [happend]
      refine ⟨rfl, ?_, rfl⟩
      rw [lastEvents_rows, hrows, length_append, length_singleton]

theorem undelivered_append :
    ((s.step (.append event maxEvents)).1.undelivered.map PublicEvent.eventId).Sublist
      (s.undelivered.map PublicEvent.eventId ++ (s.step (.append event maxEvents)).2.accepted) := by
  rcases step_append s event maxEvents with ⟨-, h⟩ | ⟨-, hd, hrows, ho⟩
  · rw [h, append_nil]
  rw [ho]
  unfold Store.undelivered
  rw [hd, hrows]
  cases s.delivery with
  | none => simp
  | some state =>
    have hsub := ((drop_sublist (s.journal.rows.length + 1 - maxEvents) (s.journal.rows ++ [event])).filter (isNew state.overlayIds)).map
      PublicEvent.eventId
    refine hsub.trans ?_
    rw [filter_append, map_append]
    refine (Sublist.refl _).append ?_
    have hone : ([event].filter (isNew state.overlayIds)).Sublist [event] := filter_sublist
    exact hone.map _

/-- Of the events to deliver and those appended, a step delivers some in front and keeps the others in order. -/
theorem step_sublist (s : Store) (op : Op) :
    (succeeded (s.step op).2.overlay ++ (s.step op).1.undelivered.map PublicEvent.eventId).Sublist
      (s.undelivered.map PublicEvent.eventId ++ (s.step op).2.accepted) := by
  cases op with
  | append event maxEvents =>
    have hnone : (s.step (.append event maxEvents)).2.overlay = [] := by
      rcases step_append s event maxEvents with ⟨-, h⟩ | ⟨-, -, -, ho⟩
      · rw [h]
      · rw [ho]
    rw [hnone]
    exact undelivered_append
  | deliver call =>
    cases hn : call.notificationsEnabled with
    | false =>
      rw [step_disabled hn, append_nil]
      exact Sublist.refl _
    | true =>
      have h : Delivered call s := delivered hn
      rw [h.overlay, h.rest, h.accepted, succeeded_attemptsOf, ← map_append, takeWhile_append_dropWhile,
        append_nil]

/-! ## Runs -/

theorem Store.after_cons (s : Store) (op : Op) (ops : List Op) : s.after (op :: ops) = (s.step op).1.after ops := rfl

theorem Store.after_nil (s : Store) : s.after [] = s := rfl

theorem Store.overlay_cons (s : Store) (op : Op) (ops : List Op) :
    s.overlay (op :: ops) = (s.step op).2.overlay ++ (s.step op).1.overlay ops := rfl

theorem Store.speech_cons (s : Store) (op : Op) (ops : List Op) :
    s.speech (op :: ops) = (s.step op).2.speech ++ (s.step op).1.speech ops := rfl

theorem Store.accepted_cons (s : Store) (op : Op) (ops : List Op) :
    s.accepted (op :: ops) = (s.step op).2.accepted ++ (s.step op).1.accepted ops := rfl

/-- What a run delivers, followed by what it leaves to deliver, is a subsequence of what there was to deliver followed
by what it appends. -/
theorem run_sublist (s : Store) (ops : List Op) :
    (succeeded (s.overlay ops) ++ (s.after ops).undelivered.map PublicEvent.eventId).Sublist
      (s.undelivered.map PublicEvent.eventId ++ s.accepted ops) := by
  induction ops generalizing s with
  | nil => simp [Store.overlay, Store.outcomes, Store.after, Store.accepted, succeeded]
  | cons op ops ih =>
    rw [Store.overlay_cons, Store.after_cons, Store.accepted_cons, succeeded_append, append_assoc]
    refine ((Sublist.refl _).append (ih _)).trans ?_
    rw [← append_assoc, ← append_assoc]
    exact (step_sublist s op).append (Sublist.refl _)

/-! ## Blocking -/

def Store.Next (s : Store) (eventId : String) : Prop := ∃ item rest, s.undelivered = item :: rest ∧ item.eventId = eventId

theorem next_of_failed (h : ⟨eventId, false⟩ ∈ (s.step (.deliver call)).2.overlay) : (s.step (.deliver call)).1.Next eventId := by
  cases hn : call.notificationsEnabled with
  | false =>
    rw [step_disabled hn] at h
    cases h
  | true =>
    have hd : Delivered call s := delivered hn
    rw [hd.overlay] at h
    unfold Store.Next
    rw [hd.rest]
    generalize s.undelivered = items at h
    induction items with
    | nil => cases h
    | cons item items ih =>
      by_cases hok : call.overlayOk item
      · rw [attemptsOf, if_pos hok] at h
        rw [dropWhile_cons_of_pos hok]
        exact ih ((mem_cons.mp h).resolve_left (by simp))
      · rw [attemptsOf, if_neg hok, mem_singleton] at h
        rw [dropWhile_cons_of_neg hok]
        exact ⟨item, items, rfl, (congrArg Attempt.eventId h).symm⟩

theorem Store.undelivered_sublist (s : Store) : s.undelivered.Sublist s.journal.rows := by
  unfold Store.undelivered
  cases s.delivery with
  | none => exact nil_sublist _
  | some state => exact filter_sublist

theorem next_append (h : s.Next eventId)
    (hstays : eventId ∈ eventIds (s.step (.append event maxEvents)).1.journal) :
    (s.step (.append event maxEvents)).1.Next eventId := by
  rcases step_append s event maxEvents with ⟨-, he⟩ | ⟨hfresh, hd, hrows, -⟩
  · rw [he]
    exact h
  obtain ⟨item, rest, hu, rfl⟩ := h
  unfold Store.undelivered at hu
  unfold Store.Next Store.undelivered
  rw [hd]
  cases hs : s.delivery with
  | none => simp [hs] at hu
  | some state =>
    simp only [hs] at hu
    simp only [hrows]
    generalize s.journal.rows.length + 1 - maxEvents = n at hrows ⊢
    -- the rows that are dropped come before the item, so none of them is to deliver
    have hnodup : ((s.journal.rows ++ [event]).map PublicEvent.eventId).Nodup := by
      rw [map_append]
      exact nodup_append'.mpr ⟨s.journal.nodup, nodup_singleton _, by
        intro k hk hk'
        exact hfresh (mem_singleton.mp hk' ▸ hk)⟩
    have hsplit := take_append_drop n (s.journal.rows ++ [event])
    have hnotin : item ∉ (s.journal.rows ++ [event]).take n := by
      intro hmem
      rw [eventIds, hrows] at hstays
      rw [← hsplit, map_append] at hnodup
      exact disjoint_of_nodup_append hnodup (mem_map_of_mem hmem) hstays
    have hall : (s.journal.rows ++ [event]).filter (isNew state.overlayIds) =
        item :: (rest ++ [event].filter (isNew state.overlayIds)) := by
      rw [filter_append, hu]
      rfl
    rw [← hsplit, filter_append] at hall
    cases hfront : ((s.journal.rows ++ [event]).take n).filter (isNew state.overlayIds) with
    | nil =>
      rw [hfront, nil_append] at hall
      exact ⟨item, _, hall, rfl⟩
    | cons first others =>
      rw [hfront, cons_append] at hall
      have hfirst : first = item := (List.cons.inj hall).1
      have : first ∈ (s.journal.rows ++ [event]).take n :=
        mem_of_mem_filter (hfront ▸ mem_cons_self)
      exact absurd (hfirst ▸ this) hnotin

/-- While the next event stays in the journal, nothing else is sent before it. -/
theorem blocked_run (h : s.Next eventId) (ops : List Op)
    (hstays : ∀ before, before <+: ops → eventId ∈ eventIds (s.after before).journal) :
    ∀ attempt ∈ (s.overlay ops).takeWhile (fun attempt => attempt ≠ ⟨eventId, true⟩), attempt = ⟨eventId, false⟩ := by
  induction ops generalizing s with
  | nil => exact fun _ h => nomatch h
  | cons op ops ih =>
    have hlater : ∀ before, before <+: ops → eventId ∈ eventIds ((s.step op).1.after before).journal :=
      fun before hb => hstays (op :: before) (cons_prefix_cons.mpr ⟨rfl, hb⟩)
    rw [Store.overlay_cons]
    cases op with
    | append event maxEvents =>
      have hnone : (s.step (.append event maxEvents)).2.overlay = [] := by
        rcases step_append s event maxEvents with ⟨-, h⟩ | ⟨-, -, -, ho⟩
        · rw [h]
        · rw [ho]
      rw [hnone]
      exact ih (next_append h (hlater [] List.nil_prefix)) hlater
    | deliver call =>
      cases hn : call.notificationsEnabled with
      | false =>
        rw [step_disabled hn] at hlater ⊢
        exact ih h hlater
      | true =>
        have hd : Delivered call s := delivered hn
        obtain ⟨item, rest, hu, rfl⟩ := h
        rw [hd.overlay, hu, attemptsOf]
        by_cases hok : call.overlayOk item
        · rw [if_pos hok, cons_append, takeWhile_cons_of_neg (by simp)]
          exact fun _ h => nomatch h
        · have hnext : (s.step (.deliver call)).1.Next item.eventId :=
            ⟨item, rest, by rw [hd.rest, hu, dropWhile_cons_of_neg hok], rfl⟩
          rw [if_neg hok, singleton_append, takeWhile_cons_of_pos (by simp)]
          intro attempt hattempt
          rcases mem_cons.mp hattempt with rfl | hattempt
          · rfl
          · exact ih hnext hlater attempt hattempt

/-! ## Once while it stays -/

theorem Store.after_append (s : Store) (before after : List Op) : s.after (before ++ after) = (s.after before).after after :=
  foldl_append

theorem not_accepted (ops : List Op) (hstays : ∀ before, before <+: ops → eventId ∈ eventIds (s.after before).journal) :
    eventId ∉ s.accepted ops := by
  induction ops generalizing s with
  | nil => exact fun h => nomatch h
  | cons op ops ih =>
    have hlater := ih fun before hb => hstays (op :: before) (cons_prefix_cons.mpr ⟨rfl, hb⟩)
    have hnow : eventId ∈ eventIds s.journal := hstays [] nil_prefix
    rw [Store.accepted_cons, mem_append, not_or]
    refine ⟨?_, hlater⟩
    cases op with
    | append event maxEvents =>
      rcases step_append s event maxEvents with ⟨-, h⟩ | ⟨hfresh, -, -, ho⟩
      · rw [h]
        exact fun h => nomatch h
      · rw [ho]
        intro hmem
        split at hmem
        · exact hfresh (mem_singleton.mp hmem ▸ hnow)
        · cases hmem
    | deliver call =>
      cases hn : call.notificationsEnabled with
      | false =>
        exact fun h => nomatch h
      | true =>
        have hd : Delivered call s := delivered hn
        exact fun h => nomatch h

/-- An id is sent at most once while it stays in the journal. -/
theorem count_le_one (ops : List Op) (hstays : ∀ before, before <+: ops → eventId ∈ eventIds (s.after before).journal) :
    (succeeded (s.overlay ops)).count eventId ≤ 1 := by
  have hsub := (sublist_append_left _ _).trans (run_sublist s ops)
  have hnodup : (s.undelivered.map PublicEvent.eventId).Nodup :=
    s.journal.nodup.sublist (s.undelivered_sublist.map _)
  calc (succeeded (s.overlay ops)).count eventId
      ≤ (s.undelivered.map PublicEvent.eventId ++ s.accepted ops).count eventId := hsub.count_le _
    _ = (s.undelivered.map PublicEvent.eventId).count eventId := by
        rw [count_append, count_eq_zero_of_not_mem (not_accepted ops hstays), Nat.add_zero]
    _ ≤ 1 := nodup_iff_count_le_one.mp hnodup eventId

/-! ## The channels -/

/-- The stores agree on the journal and on what one channel has stored. -/
structure SameFor (ids : DeliveryState → List String) (s s' : Store) : Prop where
  journal : s.journal = s'.journal
  ids : s.delivery.map ids = s'.delivery.map ids

/-- Operations that differ at most in how the sends to speech end and in whether speech is enabled. -/
inductive Op.SameOverlay : Op → Op → Prop
  | append (event : PublicEvent) (maxEvents : ℕ) : SameOverlay (.append event maxEvents) (.append event maxEvents)
  | deliver {call call' : Call} (enabled : call.notificationsEnabled = call'.notificationsEnabled)
      (ok : call.overlayOk = call'.overlayOk) : SameOverlay (.deliver call) (.deliver call')

/-- Operations that differ at most in how the sends to the overlay end. -/
inductive Op.SameSpeech : Op → Op → Prop
  | append (event : PublicEvent) (maxEvents : ℕ) : SameSpeech (.append event maxEvents) (.append event maxEvents)
  | deliver {call call' : Call} (enabled : call.notificationsEnabled = call'.notificationsEnabled)
      (speech : call.notificationSpeechEnabled = call'.notificationSpeechEnabled)
      (ok : call.speechOk = call'.speechOk) : SameSpeech (.deliver call) (.deliver call')

theorem SameFor.append (h : SameFor ids s s') (event : PublicEvent)
    (maxEvents : ℕ) : SameFor ids (s.step (.append event maxEvents)).1 (s'.step (.append event maxEvents)).1 ∧
      (s.step (.append event maxEvents)).2 = (s'.step (.append event maxEvents)).2 := by
  have hsome : s.delivery.isSome = s'.delivery.isSome := by
    have := congrArg Option.isSome h.ids
    simpa using this
  unfold Store.step
  dsimp only
  rw [h.journal, hsome]
  split
  · exact ⟨⟨rfl, h.ids⟩, rfl⟩
  · exact ⟨h, rfl⟩

/-- Deliveries that treat a channel alike keep its ids and its sends alike. -/
theorem SameFor.deliver {sends : Outcome → List Attempt} {s : Store}
    {call' : Call} (h : SameFor ids s s') (henabled : call.notificationsEnabled = call'.notificationsEnabled)
    (hbootstrap : ∀ journal, ids (.bootstrap call journal) = ids (.bootstrap call' journal))
    (hnext : ∀ (journal : Journal) (state state' : DeliveryState), ids state = ids state' →
      ids (state.next call journal) = ids (state'.next call' journal) ∧
      sends ⟨[], (overlayPass journal call.overlayOk state.overlayIds).attempts,
          (speechPass journal call state.speechIds).attempts⟩ =
        sends ⟨[], (overlayPass journal call'.overlayOk state'.overlayIds).attempts,
          (speechPass journal call' state'.speechIds).attempts⟩) :
    SameFor ids (s.step (.deliver call)).1 (s'.step (.deliver call')).1 ∧
      sends (s.step (.deliver call)).2 = sends (s'.step (.deliver call')).2 := by
  cases hn : call.notificationsEnabled with
  | false =>
    rw [step_disabled hn, step_disabled (henabled ▸ hn)]
    exact ⟨h, rfl⟩
  | true =>
    have hn' : call'.notificationsEnabled = true := henabled ▸ hn
    have hids := h.ids
    cases hd : s.delivery with
    | none =>
      rw [hd, Option.map_none] at hids
      have hd' : s'.delivery = none := Option.map_eq_none_iff.mp hids.symm
      rw [step_bootstrap hn hd, step_bootstrap hn' hd', h.journal]
      exact ⟨⟨rfl, congrArg some (hbootstrap s'.journal)⟩, rfl⟩
    | some state =>
      rw [hd, Option.map_some] at hids
      obtain ⟨state', hd', heq⟩ := Option.map_eq_some_iff.mp hids.symm
      obtain ⟨hstate, hsends⟩ := hnext s'.journal state state' heq.symm
      rw [step_running hn hd, step_running hn' hd', h.journal]
      exact ⟨⟨rfl, congrArg some hstate⟩, hsends⟩

theorem step_sameOverlay (h : SameFor DeliveryState.overlayIds s s')
    (hop : op.SameOverlay op') :
    SameFor DeliveryState.overlayIds (s.step op).1 (s'.step op').1 ∧ (s.step op).2.overlay = (s'.step op').2.overlay := by
  cases hop with
  | append event maxEvents =>
    obtain ⟨hs, ho⟩ := h.append event maxEvents
    exact ⟨hs, congrArg Outcome.overlay ho⟩
  | @deliver call call' enabled ok =>
    refine h.deliver enabled (fun _ => rfl) fun journal state state' heq => ?_
    have hpass : overlayPass journal call.overlayOk state.overlayIds =
        overlayPass journal call'.overlayOk state'.overlayIds := by
      rw [ok, heq]
    refine ⟨?_, congrArg Pass.attempts hpass⟩
    show bounded _ _ = bounded _ _
    rw [hpass]

theorem step_sameSpeech (h : SameFor DeliveryState.speechIds s s')
    (hop : op.SameSpeech op') :
    SameFor DeliveryState.speechIds (s.step op).1 (s'.step op').1 ∧ (s.step op).2.speech = (s'.step op').2.speech := by
  cases hop with
  | append event maxEvents =>
    obtain ⟨hs, ho⟩ := h.append event maxEvents
    exact ⟨hs, congrArg Outcome.speech ho⟩
  | @deliver call call' enabled speech ok =>
    refine h.deliver enabled (fun _ => rfl) fun journal state state' heq => ?_
    have hpass : speechPass journal call state.speechIds = speechPass journal call' state'.speechIds := by
      unfold speechPass
      rw [speech, ok, heq]
    refine ⟨?_, congrArg Pass.attempts hpass⟩
    show bounded _ _ = bounded _ _
    rw [hpass]

theorem run_sameOverlay (h : SameFor DeliveryState.overlayIds s s')
    (hops : Forall₂ Op.SameOverlay ops ops') : s.overlay ops = s'.overlay ops' := by
  induction hops generalizing s s' with
  | nil => rfl
  | cons hop _ ih =>
    obtain ⟨hs, ho⟩ := step_sameOverlay h hop
    rw [Store.overlay_cons, Store.overlay_cons, ho, ih hs]

theorem run_sameSpeech (h : SameFor DeliveryState.speechIds s s')
    (hops : Forall₂ Op.SameSpeech ops ops') : s.speech ops = s'.speech ops' := by
  induction hops generalizing s s' with
  | nil => rfl
  | cons hop _ ih =>
    obtain ⟨hs, ho⟩ := step_sameSpeech h hop
    rw [Store.speech_cons, Store.speech_cons, ho, ih hs]

def flash (n : ℕ) : PublicEvent where
  eventId := String.ofList ("fill:".toList ++ List.replicate n '1')
  eventType := .paperFill
  occurredAt := 0
  eventId_ne := by
    intro h
    have := congrArg String.toList h
    simp at this

theorem flash_eventId_inj {m n : ℕ} (h : (flash m).eventId = (flash n).eventId) : m = n := by
  have hchars : "fill:".toList ++ List.replicate m '1' = "fill:".toList ++ List.replicate n '1' :=
    String.ofList_inj.mp h
  have hlength := congrArg List.length (append_cancel_left hchars)
  rwa [length_replicate, length_replicate] at hlength

def callWith (ok : Bool) : Call := ⟨true, false, fun _ => ok, fun _ => ok, 0⟩

/-- The journal fills with 500 other events between two appends of one event. -/
def forgetting : List Op :=
  [.deliver (callWith true), .append (flash 0) maxEventsDefault, .deliver (callWith true)] ++
    ((List.range 500).map (fun n => .append (flash (n + 1)) maxEventsDefault) ++
      [.deliver (callWith false), .append (flash 0) maxEventsDefault, .deliver (callWith true)])

theorem Store.overlay_append (s : Store) (before after : List Op) :
    s.overlay (before ++ after) = s.overlay before ++ (s.after before).overlay after := by
  induction before generalizing s with
  | nil => rfl
  | cons op before ih => rw [cons_append, Store.overlay_cons, ih, Store.overlay_cons, append_assoc]; rfl

theorem fill_journal (h : s.journal.rows = [flash 0]) (k : ℕ) :
    (s.after ((List.range k).map fun n => .append (flash (n + 1)) maxEventsDefault)).journal.rows =
        ((List.range (k + 1)).map flash).drop (k + 1 - maxEventsDefault) ∧
      (s.after ((List.range k).map fun n => .append (flash (n + 1)) maxEventsDefault)).delivery = s.delivery := by
  induction k with
  | zero =>
    refine ⟨?_, rfl⟩
    show s.journal.rows = _
    rw [h]
    rfl
  | succ k ih =>
    rw [range_succ, map_append, Store.after_append]
    generalize s.after ((List.range k).map fun n => .append (flash (n + 1)) maxEventsDefault) = t at ih
    obtain ⟨hrows, hdelivery⟩ := ih
    rcases step_append t (flash (k + 1)) maxEventsDefault with ⟨hin, -⟩ | ⟨-, hd, hr, -⟩
    · obtain ⟨item, hitem, he⟩ := mem_map.mp (hin.resolve_left (by decide))
      rw [hrows] at hitem
      obtain ⟨n, hn, rfl⟩ := mem_map.mp (mem_of_mem_drop hitem)
      have := flash_eventId_inj he
      have := mem_range.mp hn
      omega
    · rw [map_singleton, Store.after_cons, Store.after_nil]
      refine ⟨?_, hd.trans hdelivery⟩
      have hlen : k + 1 - maxEventsDefault ≤ ((List.range (k + 1)).map flash).length := by simp
      rw [hr, hrows, ← drop_append_of_le_length hlen, drop_drop]
      rw [range_succ (n := k + 1), map_append, map_singleton]
      refine congrArg (fun n => List.drop n ((List.range (k + 1)).map flash ++ [flash (k + 1)])) ?_
      simp only [length_drop, length_map, length_range, maxEventsDefault]
      omega

/-- A delivery stores ids of the journal only. -/
theorem stored_ids (call : Call) (s : Store) (hn : call.notificationsEnabled = true) :
    ∃ state, (s.step (.deliver call)).1 = ⟨s.journal, some state⟩ ∧
      ∀ eventId ∈ state.overlayIds, eventId ∈ eventIds s.journal := by
  cases hd : s.delivery with
  | none =>
    rw [step_bootstrap hn hd]
    exact ⟨_, rfl, fun _ h => h⟩
  | some state =>
    rw [step_running hn hd]
    exact ⟨_, rfl, fun _ h => (mem_bounded.mp h).1⟩

/-- Enough other events make the journal forget one, and a call the store; appended again, it is sent. -/
theorem sent_after_fill (h : s.journal.rows = [flash 0]) {k : ℕ} (hk : maxEventsDefault ≤ k) :
    (flash 0).eventId ∈ succeeded (s.overlay (((List.range k).map fun n => .append (flash (n + 1)) maxEventsDefault) ++
      [.deliver (callWith false), .append (flash 0) maxEventsDefault, .deliver (callWith true)])) := by
  obtain ⟨hrows, -⟩ := fill_journal h k
  rw [Store.overlay_append, succeeded_append]
  generalize s.after ((List.range k).map fun n => .append (flash (n + 1)) maxEventsDefault) = t at hrows
  have hgone : (flash 0).eventId ∉ eventIds t.journal := by
    intro hmem
    obtain ⟨item, hitem, he⟩ := mem_map.mp hmem
    rw [hrows, range_succ_eq_map, map_cons, Nat.succ_sub hk, drop_succ_cons] at hitem
    obtain ⟨n, hn, rfl⟩ := mem_map.mp (mem_of_mem_drop hitem)
    obtain ⟨m, -, rfl⟩ := mem_map.mp hn
    exact absurd (flash_eventId_inj he) (Nat.succ_ne_zero m)
  obtain ⟨state, hstate, hids⟩ := stored_ids (callWith false) t rfl
  have hnew : isNew state.overlayIds (flash 0) = true := decide_eq_true fun h => hgone (hids _ h)
  rcases step_append ⟨t.journal, some state⟩ (flash 0) maxEventsDefault with ⟨hin, -⟩ | ⟨-, hd, hr, -⟩
  · exact absurd (hin.resolve_left (by decide)) hgone
  have hwaits : flash 0 ∈ (Store.step ⟨t.journal, some state⟩ (.append (flash 0) maxEventsDefault)).1.undelivered := by
    unfold Store.undelivered
    rw [hd]
    refine mem_filter.mpr ⟨?_, hnew⟩
    have hlast : t.journal.rows.length + 1 - maxEventsDefault ≤ t.journal.rows.length := by
      unfold maxEventsDefault
      omega
    rw [hr, drop_append_of_le_length hlast]
    exact mem_append_right _ mem_cons_self
  rw [Store.overlay_cons, hstate, Store.overlay_cons, Store.overlay_cons]
  generalize (Store.step ⟨t.journal, some state⟩ (.append (flash 0) maxEventsDefault)).1 = u at hwaits
  have hsent : (flash 0).eventId ∈ succeeded (u.step (.deliver (callWith true))).2.overlay := by
    have h : Delivered (callWith true) u := delivered rfl
    have hall : u.undelivered.takeWhile (callWith true).overlayOk = u.undelivered :=
      takeWhile_eq_self_iff.mpr fun _ _ => rfl
    rw [h.overlay, succeeded_attemptsOf, hall]
    exact mem_map_of_mem hwaits
  simp only [succeeded_append, mem_append]
  exact .inr (.inr (.inr (.inl hsent)))

end Docich.Trading
