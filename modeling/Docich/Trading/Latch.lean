import Docich.Trading.Experiment

/-!
# A stopped experiment stays stopped

- `Latched`: the control names an activation and why it is stopped;
- `Held`: an activation is stopped as long as it is the one in the active file;
- `OutcomeOk`: what a call does after each of its writes;
- `inv_next`, `stopped_stays`: a call that may die between two writes, and every run;
- `restarted`: the same activation again, by a clock that stands still.
-/

namespace Docich.Trading.Lab

open List Option

variable {R δ : Type} {digest : StrategyExperiment R → δ} {files : Files R δ} {now : ℚ}
  {a : StrategyExperiment R} {ledger : LedgerFile} {capital : Option ℚ} {o : Outcome R δ}

/-! ## What a run shall be -/

/-- Other rules are allowed: the evaluation is complete and nothing is left of any symbol, or there is no account. -/
def Closed (ledger : LedgerFile) (now : ℚ) : Option Evaluation → Prop
  | none => ledger = .missing
  | some e => e.status = .ok ∧ e.inventory_complete = true ∧ e.open_position_count = some 0 ∧ Flat ledger now

/-- No step after a control that stops an activation allows entries to this activation, when the control is later than the
time of the activation. -/
def Respects : Record R δ → Record R δ → Prop
  | .published c (some a), .returned step => c.status ∈ STOPPED → c.active_key ≠ .legacy → a.activated_at < c.updated_at →
    step.active = some a → step.entries_allowed = false
  | _, _ => True

structure Lawful (digest : StrategyExperiment R → δ) (log : List (Record R δ)) : Prop where
  /-- A control that stops is about the experiment that was read. -/
  identity : ∀ c read, .published c read ∈ log → c.status ∈ STOPPED → c.active_key ≠ .legacy →
    ∃ a, read = some a ∧ c.active_key = .digest (digest a)
  stopped : log.Pairwise Respects
  replaced : ∀ evaluation ledger now, .replaced evaluation ledger now ∈ log → Closed ledger now evaluation

/-! ## The latch -/

/-- The control names the activation, and why it is stopped. -/
def Latched (digest : StrategyExperiment R → δ) (a : StrategyExperiment R) (control : ControlFile δ) : Prop :=
  ∃ c reason, control = .valid c ∧ c.active_key = .digest (digest a) ∧ c.drain_reason_code = some reason ∧ reason ∈ DRAIN_REASONS

/-- The activation is stopped, as long as it is the one in the active file. -/
def Held (digest : StrategyExperiment R → δ) (a : StrategyExperiment R) (files : Files R δ) : Prop :=
  files.active = some a → Latched digest a files.control

theorem held_of_ne (h : files.active ≠ some a) : Held digest a files := fun heq => absurd heq h

/-- What holds after each of the writes. -/
def Always (P : Files R δ → Prop) (files : Files R δ) : List (Effect R δ) → Prop
  | [] => P files
  | e :: effects => P files ∧ Always P (e.apply files) effects

variable {effects : List (Effect R δ)} {reason : ControlReason} {active read : Option (StrategyExperiment R)}
  {w : ExperimentWorld R δ}
variable {P : Files R δ → Prop} {c : Control δ} {evaluation : Evaluation} {ledger' : LedgerFile}
    {now' : ℚ} {step : ExperimentStep R} {previous : ControlFile δ} {status : ControlStatus}
    {entries reload : Bool} {pending : Option (StrategyExperiment R)}

theorem Always.take (h : Always P files effects) (n : ℕ) : Always P files (effects.take n) := by
  induction effects generalizing files n with
  | nil =>
    rw [take_nil]
    exact h
  | cons e effects ih =>
    cases n with
    | zero => exact h.1
    | succ n => exact ⟨h.1, ih h.2 n⟩

theorem Always.last (h : Always P files effects) : P (effects.foldl Effect.apply files) := by
  induction effects generalizing files with
  | nil => exact h
  | cons e effects ih => exact ih h.2

/-- What a call does. A control that stops is its last write, and it is about what was read. -/
structure OutcomeOk (digest : StrategyExperiment R → δ) (files : Files R δ) (ledger : LedgerFile) (now : ℚ)
    (o : Outcome R δ) : Prop where
  held : ∀ a, a.activated_at < now → Held digest a files → Always (Held digest a) files o.effects ∧
    ∀ step, o.step = some step → step.active = some a → step.entries_allowed = false
  stops : ∀ earlier c read since, o.effects = earlier ++ .control c read :: since → c.status ∈ STOPPED → c.active_key ≠ .legacy →
    since = [] ∧ c.updated_at = now ∧ (∃ a, read = some a ∧ Latched digest a (.valid c)) ∧
      ∀ step, o.step = some step → step.entries_allowed = false
  replaced : ∀ spec evaluation, .active spec evaluation ∈ o.effects → Closed ledger now evaluation

theorem ok_nothing {step : Option (ExperimentStep R)}
    (h : ∀ a, Held digest a files → ∀ s, step = some s → s.active = some a → s.entries_allowed = false) :
    OutcomeOk digest files ledger now ⟨[], step⟩ where
  held a _ hheld := ⟨hheld, h a hheld⟩
  stops earlier c read since heq := by simp at heq
  replaced spec evaluation hmem := absurd hmem not_mem_nil

/-- A write that the latch does not see. -/
theorem OutcomeOk.after {e : Effect R δ} (h : OutcomeOk digest (e.apply files) ledger now o)
    (hactive : (e.apply files).active = files.active) (hcontrol : (e.apply files).control = files.control)
    (hnone : e.records ledger now = []) : OutcomeOk digest files ledger now (o.after [e]) where
  held a hlater hheld := by
    have hheld' : Held digest a (e.apply files) := fun ha => hcontrol ▸ hheld (hactive ▸ ha)
    obtain ⟨halways, hstep⟩ := h.held a hlater hheld'
    exact ⟨⟨hheld, halways⟩, hstep⟩
  stops earlier c read since heq := by
    cases earlier with
    | nil =>
      obtain rfl : e = .control c read := (List.cons.inj heq).1
      cases hnone
    | cons e' earlier =>
      exact h.stops earlier c read since (List.cons.inj heq).2
  replaced spec evaluation hmem := by
    rcases mem_cons.mp hmem with rfl | hmem
    · cases hnone
    · exact h.replaced spec evaluation hmem

theorem key_valid : (ControlFile.valid c).key = some c.active_key := rfl

theorem priorDrain_latched (h : c.drain_reason_code = some reason) :
    (ControlFile.valid c).priorDrain = some reason := by
  simp [ControlFile.priorDrain, h]

theorem latched_known {control : ControlFile δ} (h : Latched digest a control) : control.isInvalid = false ∧
    control.isMissing = false ∧ control.key ≠ some .legacy := by
  obtain ⟨c, reason, rfl, hkey, -⟩ := h
  refine ⟨rfl, rfl, ?_⟩
  rw [key_valid, hkey]
  exact fun heq => by cases heq

theorem rotation_reason_drain (h : rotation_reason active evaluation now = some reason) : reason ∈ DRAIN_REASONS := by
  cases active with
  | none =>
    rw [← some.inj h]
    decide
  | some active =>
    simp only [rotation_reason] at h
    repeat' split at h
    all_goals first
      | cases h
        done
      | rw [← some.inj h]
        decide

variable (h : OutcomeOk digest files ledger now o)

include h in
/-- A call that dies between two writes has made the first of them, and returns no step. -/
theorem OutcomeOk.crashed (crash : Option ℕ) :
    OutcomeOk digest files ledger now (o.crashed crash) := by
  cases crash with
  | none => exact h
  | some n =>
    refine ⟨fun a hlater hheld => ⟨(h.held a hlater hheld).1.take n, nofun⟩, fun earlier c read since heq hstopped hkey => ?_,
      fun spec evaluation hmem => h.replaced spec evaluation (mem_of_mem_take hmem)⟩
    have hall : o.effects = earlier ++ .control c read :: (since ++ o.effects.drop n) := by
      have htake : o.effects.take n = earlier ++ .control c read :: since := heq
      rw [← cons_append, ← append_assoc, ← htake, take_append_drop]
    obtain ⟨hnil, hnow, hread, -⟩ := h.stops earlier c read _ hall hstopped hkey
    exact ⟨(append_eq_nil_iff.mp hnil).1, hnow, hread, nofun⟩

/-! ## What is recorded -/

theorem published_of_records (h : .published c read ∈ effects.flatMap (Effect.records ledger now)) : .control c read ∈ effects := by
  obtain ⟨e, he, hrecord⟩ := mem_flatMap.mp h
  cases e <;> simp [Effect.records] at hrecord
  obtain ⟨rfl, rfl⟩ := hrecord
  exact he

theorem replaced_of_records {evaluation : Option Evaluation}
    (h : .replaced evaluation ledger' now' ∈ effects.flatMap (Effect.records ledger now)) :
    ledger' = ledger ∧ now' = now ∧ ∃ spec, .active spec evaluation ∈ effects := by
  obtain ⟨e, he, hrecord⟩ := mem_flatMap.mp h
  cases e <;> simp [Effect.records] at hrecord
  obtain ⟨rfl, rfl, rfl⟩ := hrecord
  exact ⟨rfl, rfl, _, he⟩

theorem no_returned_in_records :
    .returned step ∉ effects.flatMap (Effect.records ledger now) := by
  intro h
  obtain ⟨e, -, hrecord⟩ := mem_flatMap.mp h
  cases e <;> simp [Effect.records] at hrecord

include h in
theorem stops_of_mem (hmem : .control c read ∈ o.effects) (hstopped : c.status ∈ STOPPED) (hkey : c.active_key ≠ .legacy) :
    c.updated_at = now ∧ (∃ a, read = some a ∧ Latched digest a (.valid c)) ∧
      (o.effects.foldl Effect.apply files).control = .valid c ∧ ∀ step, o.step = some step → step.entries_allowed = false := by
  obtain ⟨earlier, since, heq⟩ := append_of_mem hmem
  obtain ⟨rfl, hnow, hread, hstep⟩ := h.stops earlier c read since heq hstopped hkey
  refine ⟨hnow, hread, ?_, hstep⟩
  rw [heq, foldl_append]
  rfl

/-- What a call adds to the log. -/
def recordsOf (o : Outcome R δ) (ledger : LedgerFile) (now : ℚ) : List (Record R δ) :=
  o.effects.flatMap (Effect.records ledger now) ++ o.step.toList.map .returned

theorem returned_of_mem (h : .returned step ∈ recordsOf o ledger now) : o.step = some step := by
  rcases mem_append.mp h with hrecord | hreturned
  · exact absurd hrecord no_returned_in_records
  · obtain ⟨step', hstep, heq⟩ := mem_map.mp hreturned
    rw [← Record.returned.inj heq]
    exact mem_toList.mp hstep

theorem published_of_mem (h : .published c read ∈ recordsOf o ledger now) :
    .control c read ∈ o.effects := by
  rcases mem_append.mp h with hrecord | hreturned
  · exact published_of_records hrecord
  · obtain ⟨step, -, heq⟩ := mem_map.mp hreturned
    cases heq

theorem replaced_of_mem {evaluation : Option Evaluation}
    (h : .replaced evaluation ledger' now' ∈ recordsOf o ledger now) :
    ledger' = ledger ∧ now' = now ∧ ∃ spec, .active spec evaluation ∈ o.effects := by
  rcases mem_append.mp h with hrecord | hreturned
  · exact replaced_of_records hrecord
  · obtain ⟨step, -, heq⟩ := mem_map.mp hreturned
    cases heq

/-- The log is lawful, and each activation that a control stopped is held. -/
structure Inv (digest : StrategyExperiment R → δ) (w : ExperimentWorld R δ) : Prop where
  lawful : Lawful digest w.log
  held : ∀ c a, .published c (some a) ∈ w.log → c.status ∈ STOPPED → c.active_key ≠ .legacy → a.activated_at < c.updated_at →
    c.updated_at ≤ w.clock ∧ Held digest a w.files

include h in
/-- Within a call nothing is entered after a control that stops. -/
theorem respects_call : (recordsOf o ledger now).Pairwise Respects := by
  refine Pairwise.imp_of_mem ?_ (pairwise_of_forall fun _ _ => trivial)
  intro r r' hr hr' _
  match r, r', hr, hr' with
  | .published c (some a), .returned step, hr, hr' =>
    intro hstopped hkey _ _
    exact (stops_of_mem h (published_of_mem hr) hstopped hkey).2.2.2 step (returned_of_mem hr')
  | .published _ none, _, _, _ => trivial
  | .published _ (some _), .published .., _, _ => trivial
  | .published _ (some _), .replaced .., _, _ => trivial
  | .replaced .., _, _, _ => trivial
  | .returned _, _, _, _ => trivial

/-- A call respects the controls of earlier calls. -/
theorem respects_earlier (hw : Inv digest w) (hlater : w.clock ≤ now)
    (h : OutcomeOk digest w.files ledger now o) {r r' : Record R δ} (hr : r ∈ w.log) (hr' : r' ∈ recordsOf o ledger now) :
    Respects r r' := by
  match r, r', hr, hr' with
  | .published c (some a), .returned step, hr, hr' =>
    intro hstopped hkey hafter hactive
    obtain ⟨hclock, hheld⟩ := hw.held c a hr hstopped hkey hafter
    exact (h.held a (hafter.trans_le (hclock.trans hlater)) hheld).2 step (returned_of_mem hr') hactive
  | .published _ none, _, _, _ => trivial
  | .published _ (some _), .published .., _, _ => trivial
  | .published _ (some _), .replaced .., _, _ => trivial
  | .replaced .., _, _, _ => trivial
  | .returned _, _, _, _ => trivial

theorem lawful_next (hw : Inv digest w) (hlater : w.clock ≤ now)
    (h : OutcomeOk digest w.files ledger now o) : Lawful digest (w.log ++ recordsOf o ledger now) where
  identity c read hmem hstopped hkey := by
    rcases mem_append.mp hmem with hold | hnew
    · exact hw.lawful.identity c read hold hstopped hkey
    · obtain ⟨-, ⟨a, hread, c', -, hc, hdigest, -⟩, -⟩ := stops_of_mem h (published_of_mem hnew) hstopped hkey
      obtain rfl : c = c' := ControlFile.valid.inj hc
      exact ⟨a, hread, hdigest⟩
  stopped := pairwise_append.mpr
    ⟨hw.lawful.stopped, respects_call h, fun _ hr _ hr' => respects_earlier hw hlater h hr hr'⟩
  replaced evaluation ledger' now' hmem := by
    rcases mem_append.mp hmem with hold | hnew
    · exact hw.lawful.replaced evaluation ledger' now' hold
    · obtain ⟨rfl, rfl, spec, hspec⟩ := replaced_of_mem hnew
      exact h.replaced spec evaluation hspec

theorem held_next (hw : Inv digest w) (hlater : w.clock ≤ now)
    (h : OutcomeOk digest w.files ledger now o) (hmem : .published c (some a) ∈ w.log ++ recordsOf o ledger now)
    (hstopped : c.status ∈ STOPPED) (hkey : c.active_key ≠ .legacy) (hafter : a.activated_at < c.updated_at) :
    c.updated_at ≤ now ∧ Held digest a (o.effects.foldl Effect.apply w.files) := by
  rcases mem_append.mp hmem with hold | hnew
  · obtain ⟨hclock, hheld⟩ := hw.held c a hold hstopped hkey hafter
    have hclock := hclock.trans hlater
    exact ⟨hclock, (h.held a (hafter.trans_le hclock) hheld).1.last⟩
  · obtain ⟨hnow, ⟨a', hread, hlatched⟩, hcontrol, -⟩ := stops_of_mem h (published_of_mem hnew) hstopped hkey
    obtain rfl := some.inj hread
    exact ⟨hnow.le, fun _ => hcontrol ▸ hlatched⟩

/-! ## Publishing -/

variable [DecidableEq δ]

/-- A control that is published over a latched one keeps the latch, when it is about the same activation. -/
theorem latched_controlOf (h : Latched digest a previous) (hstatus : status ∈ STOPPED → reason ∈ DRAIN_REASONS)
    (hread : read = some a ∨ read = none ∧ reason = .invalid_active) :
    Latched digest a (.valid (controlOf digest previous read now status reason entries)) := by
  obtain ⟨c, prior, rfl, hkey, hprior, hdrain⟩ := h
  have hknown : (ControlFile.valid c).known = some c := by
    rw [ControlFile.known, if_neg]
    rw [hkey]
    exact fun heq => by cases heq
  have hnew : (controlOf digest (.valid c) read now status reason entries).active_key = .digest (digest a) := by
    rcases hread with rfl | ⟨rfl, rfl⟩
    · rfl
    · simp [controlOf, hknown, hkey]
  have hsame : (ControlFile.valid c).key = some (controlOf digest (.valid c) read now status reason entries).active_key := by
    rw [key_valid, hkey, hnew]
  refine ⟨_, if status ∈ STOPPED then reason else prior, rfl, hnew, ?_, ?_⟩
  · have hdrain' : (controlOf digest (.valid c) read now status reason entries).drain_reason_code =
        ((if status ∈ STOPPED then some reason else none) <|> (ControlFile.valid c).priorDrain.filter (· ∈ DRAIN_REASONS)) := by
      exact if_pos hsame
    rw [hdrain', priorDrain_latched hprior, filter_some, if_pos (decide_eq_true hdrain)]
    split_ifs <;> rfl
  · split_ifs with hstopped
    · exact hstatus hstopped
    · exact hdrain

theorem latched_fresh (hstatus : status ∈ STOPPED) (hreason : reason ∈ DRAIN_REASONS) :
    Latched digest a (.valid (controlOf digest previous (some a) now status reason entries)) := by
  refine ⟨_, reason, rfl, rfl, ?_, hreason⟩
  simp [controlOf, hstatus]

/-- A publication by what was read. -/
theorem ok_publish {activated : Bool} (hread : ∀ a, read = some a → files.active = some a)
    (hmissing : read = none → reason = .invalid_active ∨ ∀ a, files.active = some a → ¬ Latched digest a files.control)
    (hstatus : status ∈ STOPPED → reason ∈ DRAIN_REASONS ∧ entries = false)
    (hentries : ∀ a, read = some a → Latched digest a files.control → entries = false) :
    OutcomeOk digest files ledger now (_publish digest files.control read now status reason entries activated) where
  held a _ hheld := by
    refine ⟨⟨hheld, fun hactive => ?_⟩, fun step hstep hactive => ?_⟩
    · have hlatched := hheld hactive
      refine latched_controlOf hlatched (fun h => (hstatus h).1) ?_
      cases hcase : read with
      | none =>
        rcases hmissing hcase with hreason | hno
        · exact .inr ⟨rfl, hreason⟩
        · exact absurd hlatched (hno a hactive)
      | some a' =>
        have := (hread a' hcase).symm.trans hactive
        exact .inl this
    · obtain rfl := some.inj hstep
      exact hentries a hactive (hheld (hread a hactive))
  stops earlier c read' since heq hstopped hkey := by
    obtain ⟨hnil, hcontrol⟩ : earlier = [] ∧ _ := by
      cases earlier with
      | nil => exact ⟨rfl, heq⟩
      | cons e earlier => simp [_publish] at heq
    rw [hnil] at heq
    obtain ⟨⟨rfl, rfl⟩, rfl⟩ := heq
    obtain ⟨hreason, hno⟩ := hstatus hstopped
    refine ⟨rfl, rfl, ?_, fun step hstep => ?_⟩
    · cases read with
      | some a => exact ⟨a, rfl, latched_fresh hstopped hreason⟩
      | none =>
        refine absurd ?_ hkey
        have : reason ≠ .invalid_active := fun h => absurd (h ▸ hreason) (by decide)
        simp [controlOf, this, experiment_key]
    · rw [← some.inj hstep]
      exact hno
  replaced spec evaluation hmem := by simp [_publish] at hmem

/-! ## Activation -/

/-- What a call does that activates an experiment before anything else. -/
theorem ok_activated {spec : StrategyExperiment R} {evaluation : Option Evaluation} {o : Outcome R δ}
    (hspec : spec.activated_at = now) (hclosed : Closed ledger now evaluation)
    (ho : o = ⟨[], none⟩ ∨ ∃ previous status reason entries activated, status ∉ STOPPED ∧
      o = _publish digest previous (some spec) now status reason entries activated) :
    OutcomeOk digest files ledger now (o.after [.active spec evaluation, .unlink_pending]) := by
  have hother : ∀ a : StrategyExperiment R, a.activated_at < now → some spec ≠ some a := by
    rintro a hlater heq
    rw [← some.inj heq, hspec] at hlater
    exact lt_irrefl _ hlater
  rcases ho with rfl | ⟨previous, status, reason, entries, activated, hrunning, rfl⟩
  · refine ⟨fun a hlater hheld => ⟨⟨hheld, held_of_ne (hother a hlater), held_of_ne (hother a hlater)⟩, nofun⟩, ?_, ?_⟩
    · intro earlier c read since heq
      have hmem : Effect.control c read ∈ [Effect.active spec evaluation, .unlink_pending] ++ [] := by
        rw [show [Effect.active spec evaluation, .unlink_pending] ++ [] = earlier ++ .control c read :: since from heq]
        simp
      simp at hmem
    · intro spec' evaluation' hmem
      simp only [Outcome.after, append_nil, mem_cons, Effect.active.injEq, reduceCtorEq, not_mem_nil, or_false] at hmem
      exact hmem.2 ▸ hclosed
  · refine ⟨fun a hlater hheld => ⟨⟨hheld, held_of_ne (hother a hlater), held_of_ne (hother a hlater),
      held_of_ne (hother a hlater)⟩, fun step hstep hactive => ?_⟩, ?_, ?_⟩
    · rw [← some.inj hstep] at hactive
      exact absurd hactive (hother a hlater)
    · intro earlier c read since heq hstopped
      have hmem : Effect.control c read ∈ [Effect.active spec evaluation, .unlink_pending] ++
          (_publish digest previous (some spec) now status reason entries activated).effects := by
        have hlist : [Effect.active spec evaluation, .unlink_pending] ++
          (_publish digest previous (some spec) now status reason entries activated).effects =
          earlier ++ .control c read :: since := heq
        rw [hlist]
        simp
      simp only [_publish, mem_append, mem_cons, reduceCtorEq, not_mem_nil, or_false, false_or,
        Effect.control.injEq] at hmem
      rw [hmem.1] at hstopped
      exact absurd hstopped hrunning
    · intro spec' evaluation' hmem
      simp only [Outcome.after, _publish, cons_append, nil_append, mem_cons, Effect.active.injEq, reduceCtorEq,
        not_mem_nil, or_false] at hmem
      exact hmem.2 ▸ hclosed

theorem ok_activate {pending : StrategyExperiment R}
    (hclosed : Closed ledger now (some evaluation)) :
    OutcomeOk digest files ledger now (activate digest previous pending evaluation reload ledger capital now) := by
  refine ok_activated rfl hclosed ?_
  by_cases hreload : reload = true
  · right
    rw [if_neg (not_not.mpr hreload)]
    split
    · exact ⟨previous, .blocked, _, _, _, by decide, rfl⟩
    · exact ⟨previous, .active, _, _, _, by decide, rfl⟩
  · exact .inl (if_pos hreload)

/-! ## Assessment -/

theorem ok_decideStep (hread : ∀ a, active = some a → files.active = some a)
    (hmissing : active = none → ∀ a, files.active = some a → ¬ Latched digest a files.control)
    (hclosed : evaluation.status = .ok ∧ evaluation.inventory_complete = true)
    (hflat : evaluation.open_position_count = some 0 → Flat ledger now) :
    OutcomeOk digest files ledger now (decideStep digest files.control active pending evaluation reload ledger capital now) := by
  unfold decideStep
  have hmissing' : ∀ reason : ControlReason, active = none →
      reason = .invalid_active ∨ ∀ a, files.active = some a → ¬ Latched digest a files.control := fun _ h => .inr (hmissing h)
  -- a latched activation has a prior reason
  have hprior : ∀ a, active = some a → Latched digest a files.control → ∃ reason,
      (if files.control.key = some (experiment_key digest active) then files.control.priorDrain else none) = some reason := by
    rintro a rfl ⟨c, reason, hcontrol, hkey, hreason, -⟩
    refine ⟨reason, ?_⟩
    have hsame : (ControlFile.valid c).key = some (experiment_key digest (some a)) := by
      rw [key_valid, hkey]
      rfl
    rw [hcontrol, if_pos hsame, priorDrain_latched hreason]
  generalize (if files.control.key = some (experiment_key digest active) then files.control.priorDrain else none) = prior at hprior ⊢
  by_cases hbad : prior.any (· ∉ DRAIN_REASONS) = true
  · rw [if_pos hbad]
    exact ok_publish hread (hmissing' _) (fun h => absurd h (by decide)) fun _ _ _ => rfl
  rw [if_neg hbad]
  cases hreason : prior <|> rotation_reason active evaluation now with
  | none =>
    refine ok_publish hread (hmissing' _) (fun h => absurd h (by decide)) fun a ha hlatched => ?_
    obtain ⟨reason, hprior⟩ := hprior a ha hlatched
    rw [hprior] at hreason
    cases hreason
  | some reason =>
    have hdrain : reason ∈ DRAIN_REASONS := by
      cases prior with
      | none => exact rotation_reason_drain hreason
      | some prior =>
        obtain rfl : prior = reason := some.inj hreason
        simpa using hbad
    dsimp only
    by_cases hmust : prior.isSome = true ∨ reason = .early_stop ∨ pending.isSome = true
    · rw [if_neg (not_not.mpr hmust)]
      by_cases hcount : evaluation.open_position_count = some 0
      · rw [if_neg (not_not.mpr hcount)]
        cases pending with
        | none => exact ok_publish hread (hmissing' _) (fun _ => ⟨hdrain, rfl⟩) fun _ _ _ => rfl
        | some pending => exact ok_activate ⟨hclosed.1, hclosed.2, hcount, hflat hcount⟩
      · rw [if_pos hcount]
        exact ok_publish hread (hmissing' _) (fun _ => ⟨hdrain, rfl⟩) fun _ _ _ => rfl
    · rw [if_pos hmust]
      refine ok_publish hread (hmissing' _) (fun h => absurd h (by decide)) fun a ha hlatched => ?_
      obtain ⟨reason, hprior⟩ := hprior a ha hlatched
      exact absurd (.inl (by rw [hprior]; rfl)) hmust

/-- What is decided by an evaluation, usable or not. -/
theorem ok_evaluated {experiment_id : List Char} {activated_at : ℚ}
    (hread : ∀ a, active = some a → files.active = some a)
    (hmissing : active = none → ∀ a, files.active = some a → ¬ Latched digest a files.control) :
    OutcomeOk digest files ledger now
      (if (evaluate_strategy_experiment experiment_id activated_at ledger capital now).status ≠ .ok ∨
          ¬ (evaluate_strategy_experiment experiment_id activated_at ledger capital now).inventory_complete then
        _publish digest files.control active now .blocked .evaluation_unavailable false false
      else decideStep digest files.control active pending
        (evaluate_strategy_experiment experiment_id activated_at ledger capital now) reload ledger capital now) := by
  split
  case isTrue => exact ok_publish hread (fun h => .inr (hmissing h)) (fun h => absurd h (by decide)) fun _ _ _ => rfl
  case isFalse hok =>
    obtain ⟨hstatus, hcomplete⟩ := not_or.mp hok
    exact ok_decideStep hread hmissing ⟨not_not.mp hstatus, not_not.mp hcomplete⟩ flat_of_closed

variable [DecidableEq R]

theorem ok_assess (reads : Reads) :
    OutcomeOk digest files ledger now (assess_experiment digest files reads ledger capital now) := by
  unfold assess_experiment
  by_cases hclock : now < 0
  · rw [if_pos hclock]
    exact ok_nothing fun _ _ _ hstep => by cases hstep
  rw [if_neg hclock]
  dsimp only
  have hread : ∀ a, (if reads.active then files.active else none) = some a → files.active = some a := by
    intro a ha
    split at ha
    · exact ha
    · cases ha
  generalize (if reads.active then files.active else none) = active at hread ⊢
  generalize usable_pending_experiment active (if reads.pending then files.pending else none) = pending
  split
  case isTrue hinvalid =>
    refine ok_publish hread (fun hnone => .inr fun a _ hlatched => ?_) (fun h => absurd h (by decide)) fun _ _ _ => rfl
    obtain ⟨hvalid, -, hkey⟩ := latched_known hlatched
    rcases hinvalid with hinvalid | ⟨hlegacy, -⟩
    · simp [hvalid] at hinvalid
    · rw [hnone] at hlegacy
      exact hkey hlegacy
  split
  case isTrue => exact ok_publish nofun (fun _ => .inl rfl) (fun h => absurd h (by decide)) nofun
  case isFalse hgone =>
  have hmissing : active = none → ∀ a, files.active = some a → ¬ Latched digest a files.control := by
    intro hnone a ha _
    exact hgone ⟨by rw [hnone]; rfl, .inl (by rw [ha]; rfl)⟩
  generalize hconsumed : (active.any fun active => pending.any fun pending => same_experiment active pending) = consumed
  cases hobserved : active <|> (if consumed = true then none else pending).map
      fun pending : StrategyExperiment R => { pending with activated_at := now } with
  | none =>
    refine ok_nothing fun a _ step hstep hactive => ?_
    rw [← some.inj hstep] at hactive
    cases hactive
  | some observed =>
    dsimp only
    cases consumed with
    | false =>
      have hempty (o : Outcome R δ) : o.after (if false = true then [.unlink_pending] else []) = o := rfl
      exact ok_evaluated hread hmissing
    | true =>
      refine OutcomeOk.after ?_ rfl rfl rfl
      exact ok_evaluated hread hmissing

theorem ok_stage (candidate : StrategyExperiment R) (expected_key : Key δ) (first reads : Reads) :
    OutcomeOk digest files ledger now
      (stage_candidate digest files candidate expected_key first reads ledger capital now) := by
  have hnothing : OutcomeOk digest files ledger now ⟨[], none⟩ := ok_nothing fun _ _ _ hstep => by cases hstep
  unfold stage_candidate
  dsimp only
  generalize (if first.active then files.active else none) = active
  generalize (if first.pending then files.pending else none) = pending
  iterate 6
    split
    case isTrue => exact hnothing
  split
  case isTrue hnew =>
    have hclosed : Closed ledger now none := by
      have := hnew.2.1
      cases ledger with
      | missing => rfl
      | unreadable => cases this
      | rows rows => cases this
    have hspec : ({ candidate with activated_at := now } : StrategyExperiment R).activated_at = now := rfl
    exact ok_activated hspec hclosed (.inl rfl)
  case isFalse =>
    refine OutcomeOk.after ?_ rfl rfl rfl
    exact ok_assess reads

/-! ## Runs -/

theorem ok_outcomeOf (input : ExperimentInput R δ) :
    OutcomeOk digest files input.ledger now (outcomeOf digest files input now) := by
  unfold outcomeOf
  cases input.call with
  | assess reads => exact ok_assess reads
  | stage candidate expected_key first reads => exact ok_stage candidate expected_key first reads

theorem inv_next (hw : Inv digest w) (input : ExperimentInput R δ) : Inv digest (w.next digest input) := by
  have hlater : w.clock ≤ w.clock + input.elapsed := le_add_of_nonneg_right input.elapsed.2
  have hok : OutcomeOk digest w.files input.ledger (w.clock + input.elapsed)
      ((outcomeOf digest w.files input (w.clock + input.elapsed)).crashed input.crash) := (ok_outcomeOf input).crashed input.crash
  have hlog : (w.next digest input).log = w.log ++
      recordsOf ((outcomeOf digest w.files input (w.clock + input.elapsed)).crashed input.crash) input.ledger
        (w.clock + input.elapsed) := append_assoc ..
  refine ⟨hlog ▸ lawful_next hw hlater hok, fun c a hmem => ?_⟩
  rw [hlog] at hmem
  exact held_next hw hlater hok hmem

theorem inv_run {inputs : List (ExperimentInput R δ)} (hw : Inv digest w) :
    Inv digest (inputs.foldl (ExperimentWorld.next digest) w) := by
  induction inputs generalizing w with
  | nil => exact hw
  | cons input inputs ih => exact ih (inv_next hw input)

theorem stopped_stays (digest : StrategyExperiment R → δ) (files : Files R δ) (clock : ℚ) (inputs : List (ExperimentInput R δ)) :
    Lawful digest (ExperimentWorld.run digest files clock inputs).log := by
  have hstart : Inv digest (⟨files, clock, []⟩ : ExperimentWorld R δ) :=
    ⟨⟨fun _ _ hmem => absurd hmem not_mem_nil, Pairwise.nil, fun _ _ _ hmem => absurd hmem not_mem_nil⟩,
      fun _ _ hmem => absurd hmem not_mem_nil⟩
  exact (inv_run hstart).lawful

/-! ## A clock that stands still -/

/-- The activation that a control stops. -/
def Record.stops : Record R δ → Option (StrategyExperiment R)
  | .published c read => if c.status ∈ STOPPED ∧ c.active_key ≠ .legacy then read else none
  | _ => none

/-- The activation to which a step allows entries. -/
def Record.enters : Record R δ → Option (StrategyExperiment R)
  | .returned step => if step.entries_allowed then step.active else none
  | _ => none

/-- Eight units are bought at 10 and sold at 1, one by one. -/
def lossesOf (experiment_id : List Char) : List LedgerRow :=
  let fill (side : Side) (amount price : ℚ) : LedgerRow := ⟨some 10, some ⟨['s'], side, labPrefix experiment_id, amount, price⟩⟩
  fill .buy 8 10 :: List.replicate 8 (fill .sell 1 1)

def twoExperiments : List (ExperimentInput Unit (StrategyExperiment Unit)) :=
  let readable : Reads := ⟨true, true, true⟩
  let stage (candidate : List Char) (key : Key (StrategyExperiment Unit)) := ExperimentCall.stage ⟨candidate, (), 0⟩ key readable readable
  let input (call : ExperimentCall Unit (StrategyExperiment Unit)) (ledger : LedgerFile) : ExperimentInput Unit (StrategyExperiment Unit) :=
    ⟨0, call, ledger, some 100, none⟩
  let first := LedgerFile.rows (lossesOf ['a'])
  let second := LedgerFile.rows (lossesOf ['a'] ++ lossesOf ['b'])
  [input (stage ['a'] .legacy) .missing, input (.assess readable) first, input (stage ['b'] (.digest ⟨['a'], (), 10⟩)) first,
    input (.assess readable) second, input (stage ['a'] (.digest ⟨['b'], (), 10⟩)) second]

/-- An experiment is stopped, a second one is activated and stopped, and the first is activated again, all at one time: it is the
same activation as before. -/
theorem restarted :
    ∃ (i j : ℕ) (a : StrategyExperiment Unit), i < j ∧ (ExperimentWorld.run id ⟨none, none, .missing⟩ 10 twoExperiments).log[i]?.bind Record.stops = some a ∧
      (ExperimentWorld.run id ⟨none, none, .missing⟩ 10 twoExperiments).log[j]?.bind Record.enters = some a :=
  ⟨1, 10, ⟨['a'], (), 10⟩, by decide, by decide +kernel, by decide +kernel⟩

end Docich.Trading.Lab
