import Mathlib.Data.List.AList
import Docich.GameSwitch.Time

/-!
# The records of the game switch

- `Phase`, `Operation`, `RuntimeSpec`, `Runtime`, `Result`, `Receipt`, `Canonical`: the data that
  `game_switch.json` and the receipts under `game_switch_requests/` hold;
- `validateState`: the checks every canonical state passes before it is written;
- `Payload`, `PayloadHash`: the identity of a request;
- `Exc`: the exceptions of the contract, `SwitchResult`: what a call reports.

The window and session names of a runtime are functions of its generation and are left out, like the schema numbers,
the human readable `last_error` and the time of the last canonical write, which nothing reads back.
-/

namespace Docich.GameSwitch

/-! ## Identifiers -/

/-- A request id, the number behind its UUID (the order of the texts is the order of the numbers). -/
structure RequestId where
  number : Nat
deriving DecidableEq

/-- A lease id (`uuid.uuid4`). -/
structure LeaseId where
  number : Nat
deriving DecidableEq

/-- A runtime id `g<generation>-<token>`. Generations start at 1. -/
structure RuntimeId where
  generation : Nat
  token : Nat
  positive : 0 < generation
deriving DecidableEq

/-- The value of a monotonic clock, and deadlines on it. -/
abbrev Ticks := Int

/-- A validated game name. -/
abbrev GameName := String

inductive Phase where
  | idle | validating | preparing | draining | quiescing | starting | probing | committing | ready | stopping
  | rollingBack | failed | recoveryRequired
deriving DecidableEq

/-- `IN_PROGRESS_PHASES`. -/
def Phase.inProgress : Phase → Bool
  | .idle | .ready | .failed | .recoveryRequired => false
  | _ => true

/-- The phases in which no request owns the canonical state and the queue may move. -/
def Phase.stable (p : Phase) : Bool := p == .idle || p == .ready

/-- The phases that only `recover` leaves. -/
def Phase.broken (p : Phase) : Bool := p == .failed || p == .recoveryRequired

inductive Operation where
  | start | stop | switch | restart | rotate | recover
deriving DecidableEq

/-! ## Exceptions -/

inductive ExcKind where
  | stateCorrupt | busy | requestConflict | invalidTransition | readinessTimeout | deadlineExceeded
  | roundBoundaryUnsupported (requestStarted : Bool) | roundBoundary | roundBoundaryStateChanged
  | gameSwitch | nameValidation | value | runtime | other
deriving DecidableEq

/-- An exception with its text. -/
structure Exc where
  kind : ExcKind
  text : String
deriving DecidableEq

/-- `_safe_detail`: one line of at most 240 characters. -/
def safeDetail (e : Exc) : String :=
  String.ofList ((e.text.toList.map fun c => if c = '\n' then ' ' else c).take 240)

/-! ## Requests -/

/-- `expected_source` of a payload: the four identity fields, or something else. -/
inductive SourceFence where
  | malformed
  | runtime (game : GameName) (id : RuntimeId) (generation : Nat) (lease : LeaseId)
deriving DecidableEq

/-- The payload of a request: the keys the coordinator reads or adds, and the rest. -/
structure Payload where
  expectedSource : Option SourceFence := none
  rotationGames : Option (List GameName) := none
  /-- The key `_allow_boundary_timeout_extension: false` is there. -/
  boundaryCapped : Bool := false
  rest : String := ""
deriving DecidableEq

/-- `_request_payload_hash`, taken as free of collisions. -/
structure PayloadHash where
  operation : Operation
  target : Option GameName
  payload : Payload
deriving DecidableEq

/-- `validate_request`: which operations name a game. -/
def validateRequest : Operation → Option GameName → Except Exc Unit
  | .start, none => .error ⟨.nameValidation, "start にはtarget gameが必要です"⟩
  | .switch, none => .error ⟨.nameValidation, "switch にはtarget gameが必要です"⟩
  | .restart, none => .error ⟨.nameValidation, "restart にはtarget gameが必要です"⟩
  | .stop, some _ => .error ⟨.nameValidation, "stop にはtarget gameを指定できません"⟩
  | .recover, some _ => .error ⟨.nameValidation, "recover にはtarget gameを指定できません"⟩
  | .rotate, some _ => .error ⟨.nameValidation, "rotate にはtarget gameを指定できません"⟩
  | _, _ => .ok ()

/-! ## Runtimes and results -/

/-- The identity of one runtime (`RuntimeSpec`, and `RUNTIME_IDENTITY_KEYS` of a recorded one). -/
structure RuntimeSpec where
  game : GameName
  adapter : String
  id : RuntimeId
  lease : LeaseId
deriving DecidableEq

/-- `active_runtime` of a commit. -/
structure ActiveIdentity where
  game : GameName
  id : RuntimeId
  lease : LeaseId
deriving DecidableEq

def RuntimeSpec.activeIdentity (s : RuntimeSpec) : ActiveIdentity := ⟨s.game, s.id, s.lease⟩

/-- The result of a committed switch, complete: the retirement proof of the runtime it replaced. -/
structure Commit where
  requestId : RequestId
  operation : Operation
  source : RuntimeSpec
  active : ActiveIdentity
deriving DecidableEq

inductive CleanupRole where
  | failedCandidate | failedBoundaryActive
deriving DecidableEq

/-- A runtime as the canonical state records it. -/
structure Runtime where
  spec : RuntimeSpec
  startedAt : Instant
  cleanupRole : Option CleanupRole := none
  retirement : Option Commit := none
deriving DecidableEq

def Runtime.generation (r : Runtime) : Nat := r.spec.id.generation

inductive TerminalStatus where
  | succeeded | failed | rolledBack
deriving DecidableEq

/-- The keys of a result that only some writers add. -/
inductive Extra where
  | none
  | commit (source : Option RuntimeSpec) (active : ActiveIdentity)
  | boundaryFailed (retained : Option Runtime) (cancelled : Bool)
  | restored (generation : Nat)
  | stopped (runtime : RuntimeSpec)
  | released (runtime : ActiveIdentity) (restoreRequest : Option RequestId)
  | adopted (active : ActiveIdentity)
deriving DecidableEq

/-- `last_result` of the canonical state and `result` of a receipt. An anonymous result has no request id. -/
structure Result where
  requestId : Option RequestId
  operation : Operation
  status : TerminalStatus
  fromGame : Option GameName := none
  toGame : Option GameName := none
  generation : Option Nat := none
  errorCode : Option String := none
  detail : Option String := none
  cleanupPending : Option Bool := none
  extra : Extra := .none
deriving DecidableEq

/-- The result that a retirement proof holds. -/
def Commit.result (c : Commit) : Result where
  requestId := some c.requestId
  operation := c.operation
  status := .succeeded
  fromGame := some c.source.game
  toGame := some c.active.game
  generation := some c.active.id.generation
  extra := .commit (some c.source) c.active

/-! ## Receipts -/

inductive ReceiptStatus where
  | allocating
  | accepted
  | queued
  | terminal (status : TerminalStatus) (result : Result)
deriving DecidableEq

/-- The request is neither waiting in the queue nor at its end. -/
def ReceiptStatus.unfinished : ReceiptStatus → Bool
  | .allocating | .accepted => true
  | _ => false

def ReceiptStatus.isTerminal : ReceiptStatus → Bool
  | .terminal _ _ => true
  | _ => false

/-- A request receipt. The file it lies in is named by the request id. Operation and target are those of the payload
hash. The two proofs are what `validate_receipt` checks beyond the types: the operation fits the target, and a hard
deadline comes with the extension forbidden. -/
structure Receipt where
  payloadHash : PayloadHash
  runtimeId : RuntimeId
  status : ReceiptStatus
  createdAt : Instant
  updatedAt : Instant
  allowBoundaryTimeoutExtension : Option Bool
  hardDeadlineAt : Option Instant
  valid_target : validateRequest payloadHash.operation payloadHash.target = .ok ()
  valid_deadline : hardDeadlineAt.isSome → allowBoundaryTimeoutExtension = some false

namespace Receipt

def operation (r : Receipt) : Operation := r.payloadHash.operation

def target (r : Receipt) : Option GameName := r.payloadHash.target

def generation (r : Receipt) : Nat := r.runtimeId.generation

end Receipt

abbrev Receipts := AList fun _ : RequestId => Receipt

/-! ## The canonical state -/

structure Canonical where
  revision : Nat := 0
  phase : Phase := .idle
  operation : Option Operation := none
  requestId : Option RequestId := none
  deadlineAt : Option Instant := none
  nextGeneration : Nat := 1
  active : Option Runtime := none
  candidate : Option Runtime := none
  previous : Option Runtime := none
  retiring : List Runtime := []
  lastResult : Option Result := none
deriving DecidableEq

namespace Canonical

/-- Every runtime that the state records. -/
def runtimes (c : Canonical) : List Runtime :=
  c.active.toList ++ c.candidate.toList ++ c.previous.toList ++ c.retiring

def generations (c : Canonical) : List Nat := c.runtimes.map Runtime.generation

/-- `operation` and `request_id` released, with the deadline. -/
def released (c : Canonical) : Canonical :=
  { c with operation := none, requestId := none, deadlineAt := none }

end Canonical

def validateState (c : Canonical) : Except Exc Unit :=
  if c.phase.inProgress && (c.operation.isNone || c.requestId.isNone) then
    .error ⟨.stateCorrupt, "進行中phaseにはoperationとrequest_idが必要です"⟩
  else if c.phase.stable && (c.operation.isSome || c.requestId.isSome) then
    .error ⟨.stateCorrupt, "安定phaseではoperationとrequest_idを保持できません"⟩
  else if c.operation.isNone != c.requestId.isNone then
    .error ⟨.stateCorrupt, "operationとrequest_idは同時に設定または解除してください"⟩
  else if c.nextGeneration < 1 then
    .error ⟨.stateCorrupt, "next_generation が不正です"⟩
  else if c.phase == .idle && (c.active.isSome || c.candidate.isSome || c.previous.isSome) then
    .error ⟨.stateCorrupt, "idle phaseはruntimeを保持できません"⟩
  else if c.phase == .ready && (c.active.isNone || c.candidate.isSome || c.previous.isSome) then
    .error ⟨.stateCorrupt, "ready phaseはactiveだけを保持する必要があります"⟩
  else if (c.phase == .validating || c.phase == .stopping) && c.candidate.isSome then
    .error ⟨.stateCorrupt, (if c.phase == .validating then "validating" else "stopping")
      ++ " phaseはcandidateを保持できません"⟩
  else if c.phase == .draining && (c.active.isNone || c.candidate.isSome || c.previous.isSome) then
    .error ⟨.stateCorrupt, "draining phaseは旧activeだけを保持する必要があります"⟩
  else if ¬ c.generations.Nodup then
    .error ⟨.stateCorrupt, "runtime generationが重複しています"⟩
  else if c.generations.any (c.nextGeneration ≤ ·) then
    .error ⟨.stateCorrupt, "next_generation が既存generationより先へ進んでいません"⟩
  else .ok ()

/-- A canonical state that passed `validate_state`: the only kind that is ever written. -/
abbrev ValidState := { c : Canonical // validateState c = .ok () }

/-- What `validate_state` makes sure of. -/
structure Canonical.Valid (c : Canonical) : Prop where
  owned : c.phase.inProgress = true → c.operation ≠ none ∧ c.requestId ≠ none
  unowned : c.phase.stable = true → c.operation = none ∧ c.requestId = none
  paired : c.operation.isNone = c.requestId.isNone
  positive : 1 ≤ c.nextGeneration
  idle : c.phase = .idle → c.active = none ∧ c.candidate = none ∧ c.previous = none
  ready : c.phase = .ready → c.active ≠ none ∧ c.candidate = none ∧ c.previous = none
  uncandidated : c.phase = .validating ∨ c.phase = .stopping → c.candidate = none
  draining : c.phase = .draining → c.active ≠ none ∧ c.candidate = none ∧ c.previous = none
  nodup : c.generations.Nodup
  ahead : ∀ g ∈ c.generations, g < c.nextGeneration

variable {b : Prop} {e : Exc} {x : Except Exc Unit} {c : Canonical}

/-- One check of a chain of checks, when all pass. -/
theorem check_ok [Decidable b] :
    (if b then .error e else x) = .ok () ↔ ¬ b ∧ x = .ok () := by
  by_cases hb : b <;> simp [hb]

theorem validateState_ok : validateState c = .ok () ↔ c.Valid := by
  unfold validateState
  rw [check_ok, check_ok, check_ok, check_ok, check_ok, check_ok, check_ok, check_ok, check_ok, check_ok]
  simp only [Bool.and_eq_true, Bool.or_eq_true, not_and, not_or, beq_iff_eq, bne_iff_ne, ne_eq, not_not, not_lt,
    List.any_eq_true, decide_eq_true_eq, not_exists, not_le, Option.isNone_iff_eq_none, and_true, Bool.not_eq_true,
    Option.isSome_eq_false_iff]
  constructor
  · rintro ⟨h₁, h₂, h₃, h₄, h₅, h₆, h₇, h₈, h₉, h₁₀⟩
    exact ⟨h₁, h₂, h₃, h₄, fun hp => and_assoc.mp (h₅ hp), fun hp => and_assoc.mp (h₆ hp), h₇,
      fun hp => and_assoc.mp (h₈ hp), h₉, h₁₀⟩
  · intro v
    exact ⟨v.owned, v.unowned, v.paired, v.positive, fun hp => and_assoc.mpr (v.idle hp),
      fun hp => and_assoc.mpr (v.ready hp), v.uncandidated, fun hp => and_assoc.mpr (v.draining hp), v.nodup, v.ahead⟩

/-! ## Reports -/

/-- The `operation` of a report. -/
inductive Reported where
  | op (o : Operation)
  | resumeFifo
  | maintainFifo

inductive SwitchStatus where
  | succeeded | rolledBack | failed | queued | inProgress | busy | requestConflict
deriving DecidableEq

def TerminalStatus.switchStatus : TerminalStatus → SwitchStatus
  | .succeeded => .succeeded
  | .failed => .failed
  | .rolledBack => .rolledBack

/-- What a call reports (`SwitchResult`). -/
structure SwitchResult where
  requestId : Option RequestId
  operation : Reported
  status : SwitchStatus
  target : Option GameName := none
  fromGame : Option GameName := none
  toGame : Option GameName := none
  generation : Option Nat := none
  errorCode : Option String := none
  detail : Option String := none
  warnings : List String := []
  cleanupPending : Bool := false
  receipt : Option Receipt := none

end Docich.GameSwitch
