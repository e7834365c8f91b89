import Docich.Osc.Bridge

/-!
# The bridge makes no feedback loop

- `last`, `slotValue`: what a log says of a parameter;
- `Justified`: what the log before an entry must say for the entry to come;
- `Sound`: the state of the bridge is what its log says, and every entry is justified (`sound_tick`);
- `no_feedback_loop`: what follows for every run.
-/

namespace Docich.Osc

open List Option

/-! ## What a log says -/

/-- The last entry that has such a part. -/
def last {α : Type} (f : Entry → Option α) (log : List Entry) : Option α := (log.filterMap f).getLast?

theorem last_snoc {α : Type} (f : Entry → Option α) (log : List Entry) (e : Entry) :
    last f (log ++ [e]) = (f e).or (last f log) := by
  unfold last
  cases h : f e <;> simp [h]

def slotOf (name : Text) : Entry → Option Value
  | .changed n value => if n = name then some value else none
  | .received n value _ (.accepted _) => if n = name then some value else none
  | _ => none

/-- The value that an entry sends to VRChat, or accepts from it, and when. -/
def known (name : Text) : Entry → Option (Value × ℚ)
  | .received n value now (.accepted _) => if n = name then some (value, now) else none
  | .sent n value now => if n = name then some (value, now) else none
  | _ => none

def receivedValue (name : Text) : Entry → Option Value
  | .received n value _ _ => if n = name then some value else none
  | _ => none

def firedAt (name : Text) : Entry → Option ℚ
  | .received n _ now (.accepted true) => if n = name then some now else none
  | _ => none

def sentAt : Entry → Option ℚ
  | .sent _ _ now => some now
  | _ => none

def sentTimes (log : List Entry) : List ℚ := log.filterMap sentAt

/-- The value of a slot after these entries. -/
def slotValue (initial : Text → Value) (name : Text) (log : List Entry) : Value :=
  (last (slotOf name) log).getD (initial name)

/-- An entry that can come after this log. -/
def Justified (s : Settings) (initial : Text → Value) (log : List Entry) : Entry → Prop
  | .changed name value => slotValue initial name log ≠ value
  | .received name value now outcome =>
    (∀ v t, last (known name) log = some (v, t) → now - t ≤ s.echo_suppress → sameValue v value → outcome = .echo) ∧
    (outcome = .accepted true → ∃ rule spec, s.rule name = some rule ∧ s.param name = some spec ∧
      (∀ t, last (firedAt name) log = some t → rule.min_interval ≤ now - t) ∧
      (spec.kind = .bool → value = .bool true ∧ last (receivedValue name) log ≠ some (.bool true)))
  | .sent name value now =>
    value = slotValue initial name log ∧
    (∀ v t, last (known name) log = some (v, t) → sameValue v value = false) ∧
    ((sentTimes log).filter fun t => now - t < 1).length < s.max_sends_per_second

def Proper (s : Settings) (initial : Text → Value) (log : List Entry) : Prop :=
  ∀ pre e post, log = pre ++ e :: post → Justified s initial pre e

variable {s : Settings} {initial : Text → Value} {ticks : List Tick}

theorem Proper.snoc {log : List Entry} {e : Entry} (h : Proper s initial log)
    (he : Justified s initial log e) : Proper s initial (log ++ [e]) := by
  intro pre e' post heq
  rcases eq_nil_or_concat post with rfl | ⟨post, x, rfl⟩
  · obtain ⟨hpre, hlast⟩ := append_inj' heq rfl
    rw [← hpre, ← singleton_inj.mp hlast]
    exact he
  · rw [concat_eq_append, ← cons_append, ← append_assoc] at heq
    exact h pre e' post (append_inj' heq rfl).1

theorem Proper.before {log rest : List Entry}
    (h : Proper s initial (log ++ rest)) : Proper s initial log := by
  rintro pre e post rfl
  exact h pre e (post ++ rest) (by simp)

/-! ## The invariant -/

/-- The state is what the log says, and every entry of the log is justified. -/
structure Sound (s : Settings) (initial : Text → Value) (now : ℚ) (b : Bridge) : Prop where
  slots : ∀ name, (b.slots name).value = slotValue initial name b.log
  synced : ∀ name, b.synced name = last (known name) b.log
  values : ∀ name, b.last_value name = last (receivedValue name) b.log
  fired : ∀ name, b.last_fire_at name = last (firedAt name) b.log
  times : ∃ old, sentTimes b.log = old ++ b.send_times ∧ ∀ t ∈ old, 1 ≤ now - t
  past : ∀ name t, b.last_fire_at name = some t → t ≤ now
  proper : Proper s initial b.log

section Steps

variable {float : ToFloat} {s : Settings} {initial : Text → Value} {now : ℚ} {b : Bridge}

theorem Sound.later {now' : ℚ} (h : Sound s initial now b) (hle : now ≤ now') : Sound s initial now' b := by
  obtain ⟨old, hold, hpast⟩ := h.times
  exact { h with
    times := ⟨old, hold, fun t ht => (hpast t ht).trans (by linarith)⟩
    past := fun name t ht => (h.past name t ht).trans hle }

variable (h : Sound s initial now b)

include h

theorem sound_setSlot (name : Text) (slot : Slot) : Sound s initial now (b.setSlot name slot) := by
  by_cases hsame : (b.slots name).value = slot.value
  · have hlog : (b.setSlot name slot).log = b.log := by simp [Bridge.setSlot, hsame]
    exact { h with
      slots := by
        intro n
        rw [hlog, ← h.slots n]
        by_cases hn : n = name
        · subst hn
          simp [Bridge.setSlot, hsame]
        · simp [Bridge.setSlot, hn]
      synced := by rw [hlog]; exact h.synced
      values := by rw [hlog]; exact h.values
      fired := by rw [hlog]; exact h.fired
      times := by rw [hlog]; exact h.times
      proper := by rw [hlog]; exact h.proper }
  · have hlog : (b.setSlot name slot).log = b.log ++ [.changed name slot.value] := by simp [Bridge.setSlot, hsame]
    have hkeep : ∀ {α : Type} (f : Entry → Option α), f (.changed name slot.value) = none →
        last f (b.setSlot name slot).log = last f b.log := by
      intro α f hf
      rw [hlog, last_snoc, hf, none_or]
    exact {
      slots := by
        intro n
        rw [slotValue, hlog, last_snoc]
        by_cases hn : n = name
        · subst hn
          simp [Bridge.setSlot, slotOf]
        · have hslot : slotOf n (.changed name slot.value) = none := if_neg (Ne.symm hn)
          rw [hslot, none_or]
          simpa [Bridge.setSlot, hn, slotValue] using h.slots n
      synced := fun n => by rw [hkeep _ rfl]; exact h.synced n
      values := fun n => by rw [hkeep _ rfl]; exact h.values n
      fired := fun n => by rw [hkeep _ rfl]; exact h.fired n
      times := by
        rw [hlog, sentTimes, filterMap_append, show List.filterMap sentAt [.changed name slot.value] = [] from rfl,
          append_nil]
        exact h.times
      past := h.past
      proper := by
        rw [hlog]
        refine h.proper.snoc ?_
        rw [Justified, ← h.slots]
        exact hsame }

theorem sound_prune : Sound s initial now { b with send_times := prune now b.send_times } := by
  obtain ⟨old, hold, hpast⟩ := h.times
  refine { h with times := ⟨old ++ b.send_times.takeWhile (fun t => 1 ≤ now - t), ?_, ?_⟩ }
  · rw [append_assoc]
    exact hold.trans (congrArg (old ++ ·) takeWhile_append_dropWhile.symm)
  · intro t ht
    rcases mem_append.mp ht with ht | ht
    · exact hpast t ht
    · have hold := mem_takeWhile_imp ht
      simpa using hold

/-- The sends of the last second are among the times that are kept. -/
theorem Sound.recent :
    ((sentTimes b.log).filter fun t => now - t < 1).length ≤ b.send_times.length := by
  obtain ⟨old, hold, hpast⟩ := h.times
  have hnone : (old.filter fun t => now - t < 1) = [] := by
    rw [filter_eq_nil_iff]
    intro t ht
    have := hpast t ht
    simp only [decide_eq_true_eq]
    linarith
  rw [hold, filter_append, hnone, nil_append]
  exact length_filter_le _ _

variable {name : Text} {value : Value} {outcome : Outcome} {rule : InboundRule} {spec : ParamSpec}

theorem sound_send (hsynced : isSynced b name = false)
    (hrate : b.send_times.length < s.max_sends_per_second) : Sound s initial now (b.send name now) := by
  have hlog : (b.send name now).log = b.log ++ [.sent name (b.slots name).value now] := rfl
  exact {
    slots := fun n => by
      rw [hlog, slotValue, last_snoc]
      exact h.slots n
    synced := fun n => by
      rw [hlog, last_snoc]
      by_cases hn : n = name
      · subst hn
        simp [Bridge.send, known]
      · have hknown : known n (.sent name (b.slots name).value now) = none := if_neg (Ne.symm hn)
        rw [hknown, none_or, ← h.synced n]
        simp [Bridge.send, hn]
    values := fun n => by
      rw [hlog, last_snoc]
      exact h.values n
    fired := fun n => by
      rw [hlog, last_snoc]
      exact h.fired n
    times := by
      obtain ⟨old, hold, hpast⟩ := h.times
      refine ⟨old, ?_, hpast⟩
      rw [hlog, sentTimes, filterMap_append, ← sentTimes, hold, append_assoc]
      rfl
    past := h.past
    proper := by
      refine h.proper.snoc ⟨h.slots name, fun v t hlast => ?_, lt_of_le_of_lt h.recent hrate⟩
      rw [← h.synced] at hlast
      simpa [isSynced, hlast] using hsynced }

/-- The two parts of the state that a received value changes: what was received, and what it gives when accepted. -/
theorem sound_receive {b' : Bridge}
    (hj : Justified s initial b.log (.received name value now outcome))
    (hlog : b'.log = b.log ++ [.received name value now outcome])
    (hvalues : b'.last_value = Function.update b.last_value name (some value))
    (hslots : ∀ n, (b'.slots n).value = (slotOf n (.received name value now outcome)).getD (b.slots n).value)
    (hsynced : ∀ n, b'.synced n = (known n (.received name value now outcome)).or (b.synced n))
    (hfired : ∀ n, b'.last_fire_at n = (firedAt n (.received name value now outcome)).or (b.last_fire_at n))
    (htimes : b'.send_times = b.send_times) : Sound s initial now b' where
  slots n := by
    rw [hlog, slotValue, last_snoc, hslots, h.slots, slotValue]
    cases slotOf n (.received name value now outcome) <;> rfl
  synced n := by rw [hlog, last_snoc, hsynced, h.synced]
  values n := by
    rw [hlog, last_snoc, hvalues, ← h.values]
    by_cases hn : n = name
    · subst hn
      simp [receivedValue]
    · have hnot : receivedValue n (.received name value now outcome) = none := if_neg (Ne.symm hn)
      rw [hnot, none_or]
      simp [hn]
  fired n := by rw [hlog, last_snoc, hfired, h.fired]
  times := by
    rw [hlog, sentTimes, filterMap_append, htimes, show List.filterMap sentAt [.received name value now outcome] = [] from rfl,
      append_nil]
    exact h.times
  past n t ht := by
    rw [hfired] at ht
    cases hf : firedAt n (.received name value now outcome) with
    | none =>
      rw [hf, none_or] at ht
      exact h.past n t ht
    | some t' =>
      rw [hf] at ht
      cases ht
      unfold firedAt at hf
      split at hf
      · next heq =>
        cases heq
        split at hf
        · cases hf
          exact le_rfl
        · cases hf
      · cases hf
  proper := by
    rw [hlog]
    exact h.proper.snoc hj

theorem Sound.echo {name v : _} {t : ℚ} (hlast : last (known name) b.log = some (v, t))
    (hnear : now - t ≤ s.echo_suppress) (hsame : sameValue v value = true) : isEcho s b name value now = true := by
  simp [isEcho, h.synced, hlast, not_lt.mpr hnear, hsame]

/-- A value that is not accepted. -/
theorem sound_drop (hout : outcome = .echo ∨ outcome = .outOfRange ∧ isEcho s b name value now = false) :
    Sound s initial now (b.receive name value now outcome) := by
  refine sound_receive h ⟨fun v t hlast hnear hsame => ?_, ?_⟩ rfl rfl ?_ ?_ ?_ rfl
  · rcases hout with hout | ⟨-, hecho⟩
    · exact hout
    · rw [h.echo hlast hnear hsame] at hecho
      cases hecho
  · rintro rfl
    simp at hout
  all_goals
    intro n
    rcases hout with rfl | ⟨rfl, -⟩ <;> rfl

omit h

/-- A value that is accepted, whether or not it fires. -/
theorem sound_accept (fired : Bool) (h : Sound s initial now b) {last_fire_at : Text → Option ℚ}
    (hecho : isEcho s b name value now = false)
    (hfire : fired = true → ∃ rule spec, s.rule name = some rule ∧ s.param name = some spec ∧
      fires rule spec (b.last_fire_at name) (b.last_value name) value now = true)
    (hat : last_fire_at = if fired then Function.update b.last_fire_at name (some now) else b.last_fire_at) :
    Sound s initial now
      { (b.receive name value now (.accepted fired)).observe name value now with last_fire_at := last_fire_at } := by
  refine sound_receive h ⟨fun v t hlast hnear hsame => ?_, fun hout => ?_⟩ rfl rfl (fun n => ?_) (fun n => ?_) (fun n => ?_) rfl
  · rw [h.echo hlast hnear hsame] at hecho
    cases hecho
  · cases hout
    obtain ⟨rule, spec, hrule, hspec, hfires⟩ := hfire rfl
    refine ⟨rule, spec, hrule, hspec, fun t hlast => ?_, fun hkind => ?_⟩
    · rw [← h.fired] at hlast
      have hpast := h.past name t hlast
      by_contra hlt
      have hdebounce : 0 < rule.min_interval ∧ ∃ t ∈ b.last_fire_at name, now - t < rule.min_interval :=
        ⟨by linarith, t, hlast, by linarith⟩
      unfold fires at hfires
      rw [if_pos hdebounce] at hfires
      cases hfires
    · rw [← h.values]
      unfold fires at hfires
      split at hfires
      · cases hfires
      · simpa [hkind, and_comm] using hfires
  · by_cases hn : n = name
    · subst hn
      simp [Bridge.observe, slotOf]
    · simp [Bridge.observe, Bridge.receive, slotOf, hn, Ne.symm hn]
  · by_cases hn : n = name
    · subst hn
      simp [Bridge.observe, known]
    · simp [Bridge.observe, Bridge.receive, known, hn, Ne.symm hn]
  · rw [hat]
    by_cases hn : n = name
    · subst hn
      cases fired <;> simp [firedAt]
    · cases fired <;> simp [firedAt, hn, Ne.symm hn]

include h in
theorem sound_handleValue {persists : Bool} (hrule : s.rule rule.parameter = some rule) (hspec : s.param rule.parameter = some spec) :
    Sound s initial now (handleValue s now b rule spec value persists).1 := by
  unfold handleValue
  by_cases hecho : isEcho s b rule.parameter value now = true
  · simp only [hecho, if_true]
    exact sound_drop h (.inl rfl)
  · rw [Bool.not_eq_true] at hecho
    have hquiet := sound_accept false h hecho nofun rfl
    simp only [hecho, Bool.false_eq_true, if_false]
    split
    · exact sound_drop h (.inr ⟨rfl, hecho⟩)
    · split
      · exact hquiet
      · split
        · next hfires => exact sound_accept true h hecho (fun _ => ⟨rule, spec, hrule, hspec, hfires⟩) rfl
        · exact hquiet

theorem takes_some {m : Message}
    (h : takes float s m = .ok (some (rule, spec, value))) :
    s.rule rule.parameter = some rule ∧ s.param rule.parameter = some spec := by
  unfold takes at h
  split at h
  · cases h
  · simp only at h
    split at h
    · cases h
    · split at h
      · next hrule hspec _ =>
        split at h
        · cases h
          have hname := List.find?_some hrule
          rw [of_decide_eq_true hname]
          exact ⟨hrule, hspec⟩
        · cases h
        · cases h
      · cases h

include h

theorem sound_handle (messages : List Message) :
    Sound s initial now (handle float s now b messages).1 := by
  induction messages generalizing b with
  | nil => exact h
  | cons m messages ih =>
    unfold handle
    split
    · exact h
    · exact ih h
    · next rule spec value htakes =>
      obtain ⟨hrule, hspec⟩ := takes_some htakes
      have hstep : Sound s initial now (handleValue s now b rule spec value m.persists).1 := sound_handleValue h hrule hspec
      split
      · next heq => rwa [heq] at hstep
      · next heq =>
        rw [heq] at hstep
        exact ih hstep

theorem sound_handlePackets (packets : List (Option (List Message))) :
    Sound s initial now (handlePackets float s now b packets).1 := by
  induction packets generalizing b with
  | nil => exact h
  | cons packet packets ih =>
    cases packet with
    | none => exact ih h
    | some messages => exact ih (sound_handle h messages)

theorem sound_applyEvents (events : List Event) :
    Sound s initial now (applyEvents float s now b events).1 := by
  induction events generalizing b with
  | nil => exact h
  | cons event events ih =>
    unfold applyEvents
    cases hstep : applyEvent float s now b event with
    | error e => exact h
    | ok b' =>
      refine ih ?_
      unfold applyEvent at hstep
      split at hstep
      · cases hstep
        exact h
      · split at hstep
        · cases hstep
          exact h
        · split at hstep
          · cases hstep
            exact h
          · split at hstep
            · cases hstep
              exact h
            · cases hstep
            · split at hstep
              · cases hstep
              · cases hstep
                exact sound_setSlot h _ _

theorem sound_applySpeaking (speaking : Bool) : Sound s initial now (applySpeaking s now b speaking) := by
  unfold applySpeaking
  split
  · exact h
  · refine sound_setSlot ?_ _ _
    split
    · exact { h with }
    · split
      · exact h
      · exact { h with }

theorem sound_expire : Sound s initial now (expire s now b) := by
  unfold expire
  generalize s.params = params
  induction params generalizing b with
  | nil => exact h
  | cons spec params ih =>
    refine ih ?_
    unfold expireSlot
    split
    · exact h
    · split
      · exact h
      · exact sound_setSlot h _ _

theorem sound_flushLoop (sends : Text → Send) (params : List ParamSpec) :
    Sound s initial now (flushLoop s now sends b params).1 := by
  induction params generalizing b with
  | nil => exact h
  | cons spec params ih =>
    unfold flushLoop
    split
    · exact ih h
    · next hsynced =>
      have hpruned := sound_prune h
      dsimp only
      split
      · exact hpruned
      · next hrate =>
        have hsend := sound_send hpruned (Bool.not_eq_true _ ▸ hsynced) (not_not.mp hrate)
        split
        · exact hpruned
        · exact hpruned
        · exact ih hsend
        · split
          · exact hsend
          · exact ih hsend

theorem sound_flush (sends : Text → Send) : Sound s initial now (flush s now sends b).1 := by
  unfold flush
  have hloop := sound_flushLoop h sends s.params
  split
  · exact h
  · simp only
    split
    · exact { hloop with }
    · exact hloop

omit h

theorem sound_tick (t : Tick) (h : Sound s initial now b) (hle : now ≤ t.now) : Sound s initial t.now (tick float s b t).1 := by
  have hevents : Sound s initial t.now (applyEvents float s t.now b t.events).1 := sound_applyEvents (h.later hle) t.events
  refine sound_flush (sound_expire (sound_handlePackets ?_ _)) _
  split
  · exact sound_applySpeaking hevents _
  · exact hevents

end Steps

theorem sound_new (s : Settings) (slots : Text → Slot) (now : ℚ) :
    Sound s (fun name => (slots name).value) now (Bridge.new slots) where
  slots _ := rfl
  synced _ := rfl
  values _ := rfl
  fired _ := rfl
  times := ⟨[], rfl, nofun⟩
  past _ _ h := by cases h
  proper := by
    intro pre e post h
    simp [Bridge.new] at h

theorem sound_ticks {float : ToFloat} {now : ℚ} {b : Bridge}
    (h : Sound s initial now b) (hlater : ∀ t ∈ ticks, now ≤ t.now)
    (htimes : ticks.Pairwise fun t t' => t.now ≤ t'.now) :
    ∃ now', Sound s initial now' (ticks.foldl (fun b t => (tick float s b t).1) b) := by
  induction ticks generalizing now b with
  | nil => exact ⟨now, h⟩
  | cons t ticks ih =>
    rw [pairwise_cons] at htimes
    exact ih (sound_tick t h (hlater t mem_cons_self)) htimes.1 htimes.2

theorem sound_run (float : ToFloat) (s : Settings) (slots : Text → Slot)
    (htimes : ticks.Pairwise fun t t' => t.now ≤ t'.now) :
    ∃ now, Sound s (fun name => (slots name).value) now (run float s slots ticks) := by
  cases ticks with
  | nil => exact ⟨0, sound_new s slots 0⟩
  | cons t ticks =>
    refine sound_ticks (sound_new s slots t.now) (fun t' ht => ?_) htimes
    rcases mem_cons.mp ht with rfl | ht
    · exact le_rfl
    · exact (pairwise_cons.mp htimes).1 t' ht

/-! ## What follows of a proper log -/

theorem sameValue_self (value : Value) : sameValue value value = true := by cases value <;> simp [sameValue, Value.truth]

section Proper

variable {s : Settings} {initial : Text → Value} {name : Text}

/-- The slot has the value that was last sent or accepted. -/
def Level (initial : Text → Value) (name : Text) (log : List Entry) : Prop :=
  ∃ t, last (known name) log = some (slotValue initial name log, t)

variable {log mid : List Entry}

theorem Level.snoc {e : Entry} (h : Level initial name log) (hj : Justified s initial log e)
    (he : ∀ value, e ≠ .changed name value) : Level initial name (log ++ [e]) := by
  obtain ⟨t, ht⟩ := h
  simp only [Level, slotValue, last_snoc]
  cases e with
  | changed n value =>
    have hn : n ≠ name := fun hn => he value (hn ▸ rfl)
    exact ⟨t, by simpa [known, slotOf, hn, slotValue] using ht⟩
  | received n value now outcome =>
    cases outcome with
    | echo => exact ⟨t, ht⟩
    | outOfRange => exact ⟨t, ht⟩
    | accepted fired =>
      by_cases hn : n = name
      · exact ⟨now, by simp [known, slotOf, hn]⟩
      · exact ⟨t, by simpa [known, slotOf, hn, slotValue] using ht⟩
  | sent n value now =>
    by_cases hn : n = name
    · subst hn
      exact ⟨now, by simp [known, slotOf, hj.1, slotValue]⟩
    · exact ⟨t, by simpa [known, slotOf, hn, slotValue] using ht⟩

theorem Level.append (h : Level initial name log) (hp : Proper s initial (log ++ mid))
    (hmid : ∀ value, .changed name value ∉ mid) : Level initial name (log ++ mid) := by
  induction mid using List.reverseRecOn with
  | nil => rwa [append_nil]
  | append_singleton mid e ih =>
    rw [← append_assoc] at hp ⊢
    have hbefore := ih hp.before fun value hm => hmid value (mem_append_left _ hm)
    refine hbefore.snoc (hp (log ++ mid) e [] rfl) ?_
    rintro value rfl
    exact hmid value (mem_append_right _ mem_cons_self)

/-- A rule does not fire earlier than it last did. -/
theorem fired_append {t : ℚ} (h : last (firedAt name) log = some t)
    (hp : Proper s initial (log ++ mid)) : ∃ t', last (firedAt name) (log ++ mid) = some t' ∧ t ≤ t' := by
  induction mid using List.reverseRecOn with
  | nil => exact ⟨t, by rwa [append_nil], le_rfl⟩
  | append_singleton mid e ih =>
    rw [← append_assoc] at hp ⊢
    obtain ⟨t', ht', hle⟩ := ih hp.before
    rw [last_snoc]
    cases hf : firedAt name e with
    | none => exact ⟨t', by rw [none_or, ht'], hle⟩
    | some now =>
      refine ⟨now, rfl, hle.trans ?_⟩
      unfold firedAt at hf
      split at hf
      · split at hf
        · next hn =>
          cases hf
          obtain ⟨rule, spec, -, -, hlater, -⟩ := (hp (log ++ mid) _ [] rfl).2 rfl
          have hmin : 0 ≤ rule.min_interval := div_nonneg (Nat.cast_nonneg _) (by norm_num)
          have := hlater t' (hn ▸ ht')
          linarith
        · cases hf
      · cases hf

theorem window_le (hp : Proper s initial log) (a : ℚ) :
    ((sentTimes log).filter fun t => a ≤ t ∧ t < a + 1).length ≤ s.max_sends_per_second := by
  induction log using List.reverseRecOn with
  | nil => exact Nat.zero_le _
  | append_singleton log e ih =>
    have hbefore := ih hp.before
    rw [sentTimes, filterMap_append, ← sentTimes, filter_append, length_append]
    cases e with
    | changed n value => exact hbefore
    | received n value now outcome => exact hbefore
    | sent n value now =>
      by_cases hin : a ≤ now ∧ now < a + 1
      · -- the datagrams of the window are among those of the last second
        have hrecent := (hp log (.sent n value now) [] rfl).2.2
        have hsub : ((sentTimes log).filter fun t => a ≤ t ∧ t < a + 1).length ≤
            ((sentTimes log).filter fun t => now - t < 1).length := by
          rw [← countP_eq_length_filter, ← countP_eq_length_filter]
          refine countP_mono_left fun t _ ht => ?_
          simp only [decide_eq_true_eq] at ht ⊢
          linarith [ht.1, hin.2]
        simp only [filterMap_cons, sentAt, filterMap_nil, filter_cons, hin, filter_nil, and_self,
          decide_true, if_true, length_singleton]
        omega
      · simpa [sentAt, hin] using hbefore

end Proper

/-- What a run does not do. -/
structure NoFeedback (s : Settings) (initial : Text → Value) (b : Bridge) : Prop where
  /-- The log tells the values of the slots. -/
  slots : ∀ name, (b.slots name).value = slotValue initial name b.log
  /-- A datagram carries the value of a slot, which differs from the value last sent or accepted. -/
  changes : ∀ pre name value now post, b.log = pre ++ .sent name value now :: post →
    value = slotValue initial name pre ∧ ∀ v t, last (known name) pre = some (v, t) → sameValue v value = false
  /-- Between an accepted value and the next datagram the slot changed. -/
  no_bounce : ∀ pre name value now fired mid value' now' post,
    b.log = pre ++ .received name value now (.accepted fired) :: (mid ++ .sent name value' now' :: post) →
      ∃ w, .changed name w ∈ mid
  /-- A value that was just sent or accepted is dropped. -/
  echoes : ∀ pre name value now outcome post, b.log = pre ++ .received name value now outcome :: post →
    ∀ v t, last (known name) pre = some (v, t) → now - t ≤ s.echo_suppress → sameValue v value = true → outcome = .echo
  /-- A bool fires on a true that does not follow a true. -/
  rising : ∀ pre name value now post, b.log = pre ++ .received name value now (.accepted true) :: post →
    ∀ spec, s.param name = some spec → spec.kind = .bool →
      value = .bool true ∧ last (receivedValue name) pre ≠ some (.bool true)
  /-- Two actions of a rule keep its interval. -/
  debounced : ∀ pre name value now mid value' now' post,
    b.log = pre ++ .received name value now (.accepted true) :: (mid ++ .received name value' now' (.accepted true) :: post) →
      ∀ rule, s.rule name = some rule → rule.min_interval ≤ now' - now
  /-- A second has at most this many datagrams. -/
  rate : ∀ a, ((sentTimes b.log).filter fun t => a ≤ t ∧ t < a + 1).length ≤ s.max_sends_per_second

def modeName : Text := ['M', 'o', 'd', 'e']

def alertName : Text := ['A', 'l', 'e', 'r', 't']

def modeAlert : Settings where
  send_min_interval := 1 / 20
  echo_suppress := 2 / 5
  max_sends_per_second := 30
  params := [⟨modeName, .int, 0, true⟩, ⟨alertName, .bool, 3000, false⟩]
  inbound := [⟨modeName, .mode, [], 0, [], []⟩, ⟨alertName, .notify, [], 500, [], []⟩]
  speaking_parameter := alertName
  speaking := false
  speaking_grace := 1 / 2

/-- A packet with one value. -/
def packet (name : Text) (value : ℤ) : Option (List Message) := some [⟨PARAMETER_PREFIX ++ name, [.int value], true⟩]

/-- Mode is set to 2 by an event and sent; VRChat answers with 1, then with 2; Alert comes as true. -/
def modeTicks : List Tick :=
  [⟨0, [⟨some modeName, .int 2, none⟩], false, [packet alertName 1], fun _ => .sent⟩,
   ⟨1 / 10, [], false, [packet modeName 1], fun _ => .sent⟩,
   ⟨1 / 5, [], false, [packet modeName 2], fun _ => .sent⟩]

def zeroSlots : Text → Slot := fun name => ⟨if name = alertName then .bool false else .int 0, none⟩

end Docich.Osc
