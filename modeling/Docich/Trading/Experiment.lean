import Docich.Trading.Evaluation

/-!
# The control of an experiment

- `assess_experiment`, `stage_candidate`: the two calls, each with the writes that it makes and the step that it returns;
- `ExperimentWorld`: files and clock; a call may die between two writes.

The rules of an experiment are of any type. The digest of an activation is a parameter. A read of the active or of the
pending file may fail although the file is there.
-/

namespace Docich.Trading.Lab

/-- An experiment; `rules` is its payload but for the id and the time of its activation. -/
structure StrategyExperiment (R : Type) where
  experiment_id : List Char
  rules : R
  activated_at : ℚ
  deriving DecidableEq

inductive ControlStatus
  | active
  | draining
  | waiting_candidate
  | blocked
  | legacy
  deriving DecidableEq

inductive ControlReason
  | early_stop
  | sample_complete
  | max_age
  | initial_experiment
  | invalid_active
  | evaluation_unavailable
  | control_invalid
  | collecting
  | pending_activated
  | no_experiment
  deriving DecidableEq

def DRAIN_REASONS : List ControlReason := [.early_stop, .sample_complete, .max_age, .initial_experiment]

/-- Statuses under which an experiment is stopped. -/
def STOPPED : List ControlStatus := [.draining, .waiting_candidate]

def MIN_EXPERIMENT_CLOSED_SELLS : ℕ := 20
def MIN_EXPERIMENT_AGE_S : ℕ := 48 * 3600
def EARLY_STOP_CLOSED_SELLS : ℕ := 8
def EARLY_STOP_PROFIT_FACTOR : ℚ := 3 / 4

inductive Key (δ : Type)
  | legacy
  | digest (d : δ)
  deriving DecidableEq

structure Control (δ : Type) where
  active_key : Key δ
  experiment_id : Option (List Char)
  activated_at : Option ℚ
  updated_at : ℚ
  status : ControlStatus
  reason_code : ControlReason
  drain_reason_code : Option ControlReason
  entries_allowed : Bool

inductive ControlFile (δ : Type)
  | missing
  | invalid
  | valid (c : Control δ)

structure Files (R δ : Type) where
  active : Option (StrategyExperiment R)
  pending : Option (StrategyExperiment R)
  control : ControlFile δ

structure ExperimentStep (R : Type) where
  active : Option (StrategyExperiment R)
  entries_allowed : Bool
  status : ControlStatus
  reason_code : ControlReason
  activated : Bool

/-- A write; the active file with the evaluation that allowed it, or with none where there was no account. -/
inductive Effect (R δ : Type)
  | control (c : Control δ) (active : Option (StrategyExperiment R))
  | active (spec : StrategyExperiment R) (evaluation : Option Evaluation)
  | unlink_pending
  | pending (spec : StrategyExperiment R)

/-- The writes of a call, and the step it returns unless it raises or returns none. -/
structure Outcome (R δ : Type) where
  effects : List (Effect R δ)
  step : Option (ExperimentStep R)

/-- Which reads of a call succeed: of the active file, of the pending file, and of the active file after its activation. -/
structure Reads where
  active : Bool
  pending : Bool
  reload : Bool

section

variable {R δ : Type} [DecidableEq R] [DecidableEq δ] (digest : StrategyExperiment R → δ)

def experiment_key (spec : Option (StrategyExperiment R)) : Key δ :=
  match spec with
  | none => .legacy
  | some spec => .digest (digest spec)

def same_experiment (left right : StrategyExperiment R) : Bool :=
  left.experiment_id = right.experiment_id && left.rules = right.rules

def usable_pending_experiment (active pending : Option (StrategyExperiment R)) : Option (StrategyExperiment R) :=
  match active, pending with
  | some active, some pending =>
    if active.experiment_id = pending.experiment_id ∧ ¬ same_experiment active pending then none else some pending
  | _, pending => pending

def rotation_reason (active : Option (StrategyExperiment R)) (evaluation : Evaluation) (now : ℚ) : Option ControlReason :=
  match active with
  | none => some .initial_experiment
  | some active =>
    if evaluation.status ≠ .ok then none
    else if evaluation.experiment_id ≠ active.experiment_id ∨ evaluation.activated_at ≠ active.activated_at then none
    else
      match evaluation.closed_sells, evaluation.realized_pnl_jpy with
      | some count, some pnl =>
        if now - active.activated_at < 0 ∨ evaluation.profit_factor.any (· < 0) then none
        else if EARLY_STOP_CLOSED_SELLS ≤ count ∧ pnl < 0 ∧ evaluation.profit_factor.any (· < EARLY_STOP_PROFIT_FACTOR) then
          some .early_stop
        else if MIN_EXPERIMENT_CLOSED_SELLS ≤ count then some .sample_complete
        else if MIN_EXPERIMENT_AGE_S ≤ now - active.activated_at then some .max_age
        else none
      | _, _ => none

def ControlFile.key : ControlFile δ → Option (Key δ)
  | .valid c => some c.active_key
  | _ => none

def ControlFile.reason : ControlFile δ → Option ControlReason
  | .valid c => some c.reason_code
  | _ => none

def ControlFile.isInvalid : ControlFile δ → Bool
  | .invalid => true
  | _ => false

def ControlFile.isMissing : ControlFile δ → Bool
  | .missing => true
  | _ => false

/-- Why the experiment is stopped, when it is. -/
def ControlFile.priorDrain : ControlFile δ → Option ControlReason
  | .valid c => c.drain_reason_code <|> if c.status ∈ STOPPED then some c.reason_code else none
  | _ => none

/-- The identity of a known activation. -/
def ControlFile.known : ControlFile δ → Option (Control δ)
  | .valid c => if c.active_key = .legacy then none else some c
  | _ => none

/-- What `_publish` writes. -/
def controlOf (previous : ControlFile δ) (active : Option (StrategyExperiment R)) (now : ℚ) (status : ControlStatus)
    (reason : ControlReason) (entries : Bool) : Control δ :=
  -- the identity of an active file that is missing for now is kept
  let preserved := if active.isNone ∧ reason = .invalid_active then previous.known else none
  let active_key := preserved.elim (experiment_key digest active) Control.active_key
  let drain := if status ∈ STOPPED then some reason else none
  { active_key := active_key
    experiment_id := preserved.elim (active.map StrategyExperiment.experiment_id) Control.experiment_id
    activated_at := preserved.elim (active.map StrategyExperiment.activated_at) Control.activated_at
    updated_at := now
    status := status
    reason_code := reason
    drain_reason_code :=
      if previous.key = some active_key then drain <|> previous.priorDrain.filter (· ∈ DRAIN_REASONS) else drain
    entries_allowed := entries }

def _publish (previous : ControlFile δ) (active : Option (StrategyExperiment R)) (now : ℚ) (status : ControlStatus)
    (reason : ControlReason) (entries activated : Bool) : Outcome R δ :=
  ⟨[.control (controlOf digest previous active now status reason entries) active], some ⟨active, entries, status, reason, activated⟩⟩

def Outcome.after (o : Outcome R δ) (effects : List (Effect R δ)) : Outcome R δ := { o with effects := effects ++ o.effects }

/-- The pending experiment is made the active one. -/
def activate (previous : ControlFile δ) (pending : StrategyExperiment R) (evaluation : Evaluation) (reload : Bool)
    (ledger : LedgerFile) (capital : Option ℚ) (now : ℚ) : Outcome R δ :=
  let active := { pending with activated_at := now }
  let again := evaluate_strategy_experiment active.experiment_id now ledger capital now
  let outcome : Outcome R δ :=
    if ¬ reload then ⟨[], none⟩
    else if again.status ≠ .ok ∨ ¬ again.inventory_complete then
      _publish digest previous (some active) now .blocked .evaluation_unavailable false true
    else _publish digest previous (some active) now .active .pending_activated true true
  outcome.after [.active active (some evaluation), .unlink_pending]

/-- What is decided when the evaluation is usable. -/
def decideStep (previous : ControlFile δ) (active pending : Option (StrategyExperiment R)) (evaluation : Evaluation)
    (reload : Bool) (ledger : LedgerFile) (capital : Option ℚ) (now : ℚ) : Outcome R δ :=
  let rotation := rotation_reason active evaluation now
  let prior := if previous.key = some (experiment_key digest active) then previous.priorDrain else none
  if prior.any (· ∉ DRAIN_REASONS) then _publish digest previous active now .blocked .control_invalid false false
  else
    match prior <|> rotation with
    | none => _publish digest previous active now .active .collecting true false
    | some reason =>
      if ¬ (prior.isSome ∨ reason = .early_stop ∨ pending.isSome) then _publish digest previous active now .active reason true false
      else if evaluation.open_position_count ≠ some 0 then _publish digest previous active now .draining reason false false
      else
        match pending with
        | none => _publish digest previous active now .waiting_candidate reason false false
        | some pending => activate digest previous pending evaluation reload ledger capital now

def assess_experiment (files : Files R δ) (reads : Reads) (ledger : LedgerFile) (capital : Option ℚ) (now : ℚ) : Outcome R δ :=
  if now < 0 then ⟨[], none⟩
  else
    let active := if reads.active then files.active else none
    let pending := usable_pending_experiment active (if reads.pending then files.pending else none)
    let previous := files.control
    if previous.isInvalid ∨ previous.key = some (experiment_key digest active) ∧ previous.reason = some .control_invalid then
      _publish digest previous active now .blocked .control_invalid false false
    else if active.isNone ∧ (files.active.isSome ∨ previous.known.isSome ∨ previous.reason = some .invalid_active) then
      _publish digest previous none now .blocked .invalid_active false false
    else
      -- a candidate that was consumed does not reset the clock of its evaluation
      let consumed := active.any fun active => pending.any fun pending => same_experiment active pending
      let pending := if consumed then none else pending
      match active <|> pending.map fun pending => { pending with activated_at := now } with
      | none => ⟨[], some ⟨none, true, .legacy, .no_experiment, false⟩⟩
      | some observed =>
        let evaluation := evaluate_strategy_experiment observed.experiment_id observed.activated_at ledger capital now
        let outcome :=
          if evaluation.status ≠ .ok ∨ ¬ evaluation.inventory_complete then
            _publish digest previous active now .blocked .evaluation_unavailable false false
          else decideStep digest previous active pending evaluation reads.reload ledger capital now
        outcome.after (if consumed then [.unlink_pending] else [])

def LedgerFile.isMissing : LedgerFile → Bool
  | .missing => true
  | _ => false

def stage_candidate (files : Files R δ) (candidate : StrategyExperiment R) (expected_key : Key δ) (first reads : Reads)
    (ledger : LedgerFile) (capital : Option ℚ) (now : ℚ) : Outcome R δ :=
  let active := if first.active then files.active else none
  let control := files.control
  if experiment_key digest active ≠ expected_key then ⟨[], none⟩
  else if control.isInvalid ∨ control.reason = some .control_invalid then ⟨[], none⟩
  else if active.isNone ∧ (files.active.isSome ∨ control.known.isSome ∨ control.reason = some .invalid_active) then ⟨[], none⟩
  else if active.any fun active => same_experiment active candidate then ⟨[], none⟩
  else if active.any fun active => active.experiment_id = candidate.experiment_id then ⟨[], none⟩
  else if (usable_pending_experiment active (if first.pending then files.pending else none)).any
      fun pending => !same_experiment pending candidate then ⟨[], none⟩
  else if active.isNone ∧ ledger.isMissing ∧ control.isMissing then
    ⟨[.active { candidate with activated_at := now } none, .unlink_pending], none⟩
  else (assess_experiment digest { files with pending := some candidate } reads ledger capital now).after [.pending candidate]

end

/-! ## Runs -/

section

variable {R δ : Type} [DecidableEq R] [DecidableEq δ]

def Effect.apply (files : Files R δ) : Effect R δ → Files R δ
  | .control c _ => { files with control := .valid c }
  | .active spec _ => { files with active := some spec }
  | .unlink_pending => { files with pending := none }
  | .pending spec => { files with pending := some spec }

/-- What is recorded of a run: controls that were published, with the experiment that was read as active; replacements of
the active file, with the evaluation, the ledger and the time; and the steps that were returned. -/
inductive Record (R δ : Type)
  | published (c : Control δ) (active : Option (StrategyExperiment R))
  | replaced (evaluation : Option Evaluation) (ledger : LedgerFile) (now : ℚ)
  | returned (step : ExperimentStep R)

def Effect.records (ledger : LedgerFile) (now : ℚ) : Effect R δ → List (Record R δ)
  | .control c read => [.published c read]
  | .active _ evaluation => [.replaced evaluation ledger now]
  | _ => []

inductive ExperimentCall (R δ : Type)
  | assess (reads : Reads)
  | stage (candidate : StrategyExperiment R) (expected_key : Key δ) (first reads : Reads)

/-- A call, how much later it comes, the ledger that it finds, and after how many writes it dies, if it does. -/
structure ExperimentInput (R δ : Type) where
  elapsed : ℚ≥0
  call : ExperimentCall R δ
  ledger : LedgerFile
  capital : Option ℚ
  crash : Option ℕ

structure ExperimentWorld (R δ : Type) where
  files : Files R δ
  clock : ℚ
  log : List (Record R δ)

def outcomeOf (digest : StrategyExperiment R → δ) (files : Files R δ) (input : ExperimentInput R δ) (now : ℚ) : Outcome R δ :=
  match input.call with
  | .assess reads => assess_experiment digest files reads input.ledger input.capital now
  | .stage candidate expected_key first reads =>
    stage_candidate digest files candidate expected_key first reads input.ledger input.capital now

def Outcome.crashed (o : Outcome R δ) (crash : Option ℕ) : Outcome R δ :=
  match crash with
  | none => o
  | some n => ⟨o.effects.take n, none⟩

def ExperimentWorld.next (digest : StrategyExperiment R → δ) (w : ExperimentWorld R δ) (input : ExperimentInput R δ) :
    ExperimentWorld R δ :=
  let now := w.clock + input.elapsed
  let o := (outcomeOf digest w.files input now).crashed input.crash
  { files := o.effects.foldl Effect.apply w.files
    clock := now
    log := w.log ++ o.effects.flatMap (Effect.records input.ledger now) ++ o.step.toList.map .returned }

/-- A run that begins with any files, at any time. -/
def ExperimentWorld.run (digest : StrategyExperiment R → δ) (files : Files R δ) (clock : ℚ)
    (inputs : List (ExperimentInput R δ)) : ExperimentWorld R δ :=
  inputs.foldl (ExperimentWorld.next digest) ⟨files, clock, []⟩

end

end Docich.Trading.Lab
