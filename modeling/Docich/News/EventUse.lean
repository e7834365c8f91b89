import Docich.News.Fence

/-!
# The identity of a used event

The primary key of a used event joins run, scenario, event group and asset with colons, and a colon may stand in each
of them. The key keeps the words between the colons, in their order, and loses which field they belong to.
Every stored row carries the key of its own fields (`named_of_left`), so the primary key
refuses a candidate with a new event exactly when a stored event has the same words in other fields.
-/

namespace Docich.News

open Durable List

variable {sumText : List ℚ → ℚ} {l l' : Ledger}

/-! ## Words -/

/-- The words of an identifier, between its colons. -/
def words (s : String) : List (List Char) := s.toList.splitOn ':'

theorem intercalate_words (s : String) : [':'].intercalate (words s) = s.toList := intercalate_splitOn _

theorem words_inj {s t : String} (h : words s = words t) : s = t := by
  apply String.toList_injective
  rw [← intercalate_words s, ← intercalate_words t, h]

/-- A colon between two identifiers only parts their words. -/
theorem words_join (s t : String) : words (s ++ ":" ++ t) = words s ++ words t := by
  unfold words
  rw [String.toList_append, String.toList_append, append_assoc]
  exact splitOn_append_cons_self _ _

/-! ## Events -/

/-- What a used event is identified by. -/
structure Event where
  runId : String
  scenarioId : String
  eventGroupId : String
  asset : String
  deriving DecidableEq

def DecisionRequest.event (q : DecisionRequest) : Event := ⟨q.runId, q.scenarioId, q.eventGroupId, q.asset⟩

def EventUseRow.event (u : EventUseRow) : Event := ⟨u.runId, u.scenarioId, u.eventGroupId, u.asset⟩

/-- The identifiers are admitted by the pattern. -/
def Event.Valid (e : Event) : Prop :=
  validId e.runId ∧ validId e.scenarioId ∧ validId e.eventGroupId ∧ validId e.asset

def Event.words (e : Event) : List (List Char) :=
  News.words e.runId ++ News.words e.scenarioId ++ News.words e.eventGroupId ++ News.words e.asset

/-- The numbers of words of all fields but the last. -/
def Event.division (e : Event) : Nat × Nat × Nat :=
  ((News.words e.runId).length, (News.words e.scenarioId).length, (News.words e.eventGroupId).length)

/-- Two events do not have the same words divided differently among their fields. -/
def Event.Apart (e e' : Event) : Prop := e.words = e'.words → e.division = e'.division

instance (e : Event) : Decidable e.Valid := inferInstanceAs (Decidable (_ ∧ _))

instance (e e' : Event) : Decidable (e.Apart e') := inferInstanceAs (Decidable (_ → _))

/-- Words with their division give the fields back. -/
theorem Event.eq_of_words {e e' : Event} (h : e.words = e'.words) (hd : e.division = e'.division) : e = e' := by
  obtain ⟨run, scenario, group, asset⟩ := e
  obtain ⟨run', scenario', group', asset'⟩ := e'
  have hrun : (News.words run).length = (News.words run').length := congrArg Prod.fst hd
  have hscenario : (News.words scenario).length = (News.words scenario').length := congrArg (·.2.1) hd
  have hgroup : (News.words group).length = (News.words group').length := congrArg (·.2.2) hd
  simp only [Event.words, append_assoc] at h
  obtain ⟨h1, h⟩ := append_inj h hrun
  obtain ⟨h2, h⟩ := append_inj h hscenario
  obtain ⟨h3, h4⟩ := append_inj h hgroup
  rw [words_inj h1, words_inj h2, words_inj h3, words_inj h4]

/-! ## Keys -/

/-- The primary key of an event. -/
def Event.useId (e : Event) : String :=
  "event_use:" ++ e.runId ++ ":" ++ e.scenarioId ++ ":" ++ e.eventGroupId ++ ":" ++ e.asset

theorem eventUseIdOf_event (q : DecisionRequest) : eventUseIdOf q = q.event.useId := rfl

theorem words_useId (e : Event) : News.words e.useId = News.words "event_use" ++ e.words := by
  have hprefix : "event_use:" ++ e.runId = "event_use" ++ ":" ++ e.runId := rfl
  unfold Event.useId
  rw [words_join, words_join, words_join, hprefix, words_join]
  simp only [Event.words, append_assoc]

/-- The key keeps the words and nothing else. -/
theorem useId_eq_iff {e e' : Event} : e.useId = e'.useId ↔ e.words = e'.words := by
  constructor
  · intro h
    have hw : News.words e.useId = News.words e'.useId := congrArg News.words h
    rw [words_useId, words_useId] at hw
    exact append_cancel_left hw
  · intro h
    apply words_inj
    rw [words_useId, words_useId, h]

/-- A key stands for one of two events exactly when they are apart. -/
theorem useId_inj_iff {e e' : Event} : (e.useId = e'.useId → e = e') ↔ e.Apart e' := by
  constructor
  · intro h hw
    rw [h (useId_eq_iff.mpr hw)]
  · intro h hid
    have hw : e.words = e'.words := useId_eq_iff.mp hid
    exact Event.eq_of_words hw (h hw)

/-! ## Runs -/

/-- Every used event is stored under its own key. -/
def Named (l : Ledger) : Prop := ∀ u ∈ l.eventUses, u.eventUseId = u.event.useId

theorem Quiet.eventUses (h : Quiet l l') : l'.eventUses = l.eventUses := by
  cases h with
  | opened h => rw [h.frame]
  | valued h => rw [h]
  | decided h => rw [h.frame]
  | committed h => rw [h.frame]
  | fenced h => rw [h.frame]
  | canceled h => rw [h.frame]
  | abandoned h => rw [h]

theorem receiptDraft_event {m : Manager} {q : DecisionRequest} {status : ReceiptStatus} {codes : List String}
    {r : ReceiptDraft} (h : receiptDraft m q status codes = .ok r) :
    r.runId = q.runId ∧ r.scenarioId = q.scenarioId := by
  obtain ⟨-, h⟩ := require_bind_ok h
  cases h
  exact ⟨rfl, rfl⟩

theorem Move.named {a : Attempt} {s : Ledger} (h : Move sumText a s l l') (hl : Named l) : Named l' := by
  cases h with
  | quiet hq =>
    unfold Named
    rw [hq.eventUses]
    exact hl
  | @accepted q _ r _ _ _ hacc =>
    obtain ⟨hrun, hscenario⟩ := receiptDraft_event hacc.draft
    intro u hu
    rcases (Table.mem_insert? hacc.begun.eventUses).mp hu with hu | rfl
    · exact hl u hu
    · simp only [EventUseRow.event, hrun, hscenario]
      rfl
  | executed _ _ hx =>
    have heq : l'.eventUses = l.eventUses := by rw [hx.applied.frame]
    unfold Named
    rw [heq]
    exact hl

theorem named_of_left {C : Ledger → Attempt → Prop} {attempts : List Attempt} (h : Left sumText C .empty attempts l) :
    Named l :=
  h.moved (fun _ _ _ _ _ hm hl => hm.named hl) (fun _ hu => absurd hu Table.not_mem_empty)

/-- No stored event is the candidate's: the constraint on the four fields admits it. -/
def Ledger.Admits (l : Ledger) (e : Event) : Prop := ∀ u ∈ l.eventUses, u.event ≠ e

/-- The row of a candidate's event. -/
def DecisionRequest.useRow (q : DecisionRequest) : EventUseRow :=
  ⟨eventUseIdOf q, q.runId, q.scenarioId, q.eventGroupId, q.asset, q.receiptId⟩

theorem useRow_eventUseId (q : DecisionRequest) : q.useRow.eventUseId = q.event.useId := rfl

def Ledger.KeyRefuses (l : Ledger) (u : EventUseRow) : Prop := l.eventUses.insert? u = none

theorem keyRefuses_iff (hl : Named l) (q : DecisionRequest) :
    l.KeyRefuses q.useRow ↔ ∃ u ∈ l.eventUses, u.event.words = q.event.words := by
  unfold Ledger.KeyRefuses
  rw [Table.insert?_eq_none]
  constructor
  · rintro ⟨u, hu, hid⟩
    rw [hl u hu, useRow_eventUseId] at hid
    exact ⟨u, hu, useId_eq_iff.mp hid⟩
  · rintro ⟨u, hu, hw⟩
    refine ⟨u, hu, ?_⟩
    rw [hl u hu, useRow_eventUseId]
    exact useId_eq_iff.mpr hw

/-- **The key of a used event.** It identifies the events of two candidates exactly when they are apart; and in every
ledger that attempts leave behind, it admits whatever the constraint on the four fields admits exactly when the
stored events are apart from the candidate's. -/
theorem event_use_identity (sumText : List ℚ → ℚ) :
    (∀ q q' : DecisionRequest, (eventUseIdOf q = eventUseIdOf q' → q.event = q'.event) ↔ q.event.Apart q'.event) ∧
      ∀ attempts l, Left sumText Always .empty attempts l → ∀ q : DecisionRequest,
        (l.Admits q.event → ¬ l.KeyRefuses q.useRow) ↔ ∀ u ∈ l.eventUses, u.event.Apart q.event := by
  constructor
  · intro q q'
    rw [eventUseIdOf_event, eventUseIdOf_event]
    exact useId_inj_iff
  · intro attempts l hrun q
    have hnamed : Named l := named_of_left hrun
    rw [keyRefuses_iff hnamed q]
    constructor
    · intro h u hu hw
      by_cases hadmits : l.Admits q.event
      · exact absurd ⟨u, hu, hw⟩ (h hadmits)
      -- the candidate's own event is stored: its key is taken by that row alone
      · unfold Ledger.Admits at hadmits
        push Not at hadmits
        obtain ⟨v, hv, hve⟩ := hadmits
        have huv : u = v := Table.eq_of_key_eq hu hv (by
          rw [hnamed u hu, hnamed v hv, hve]
          exact useId_eq_iff.mpr hw)
        rw [huv, hve]
    · rintro h hadmits ⟨u, hu, hw⟩
      exact hadmits u hu (Event.eq_of_words hw (h u hu hw))

/-! ## A colon in either of two fields -/

/-- The same words, with `b` in the event group or in the asset. -/
def blurred (receiptId eventGroupId asset : String) : DecisionRequest :=
  { plainRequest receiptId eventGroupId 100 (some 8) (plainConstraints 1 0 pos_one nonneg_zero) with asset := asset }

def groupFirst : DecisionRequest := blurred "receipt-1" "a:b" "c"

def assetFirst : DecisionRequest := blurred "receipt-2" "a" "b:c"

/-- The group candidate is accepted. The last attempt comes first. -/
def groupAccepted : List Attempt :=
  [plainAttempt (.submitCandidate groupFirst .accept []),
   plainAttempt (.createAccount "account-1" "run-1" "scenario-1" 10000 "JPY")]

/-- Two different events share one key: once the first is used, the key refuses the second event, which the constraint
on the four fields admits, and the acceptance of its candidate raises. -/
theorem event_key_shared : groupFirst.event.Valid ∧ assetFirst.event.Valid ∧ groupFirst.event ≠ assetFirst.event ∧
    eventUseIdOf groupFirst = eventUseIdOf assetFirst ∧
    (∀ u ∈ (ranAll sqliteSum groupAccepted).eventUses.rows, u.event ≠ assetFirst.event) ∧
    ((ranAll sqliteSum groupAccepted).eventUses.insert? assetFirst.useRow).isNone ∧
    ((plainAttempt (.submitCandidate assetFirst .accept [])).job sqliteSum (ranAll sqliteSum groupAccepted)).2 =
      .error .integrity := by
  decide +kernel

end Docich.News
