import Docich.News.Scalar
import Mathlib.Data.Finset.Card
import Mathlib.Data.List.Sort

/-!
# Price and news composition

`compose` evaluates three arms for one price candidate against one event-use store: `composeArmA` reads the price
alone, `composeArmB` filters the price by the news, `composeArmC` follows the news alone.

* The store is the one of the module itself, `InMemoryEventUseStore`: used events, cooldowns, dedupe keys.
* A run is a list of `ComposeCall`s on one fresh store. A call with an invalid price candidate raises before any arm
  reaches the store.
* The arms do not interfere on a run when every outcome is the one the arm would have had on a store that the other
  arm never wrote. This holds exactly when arm B never gets as far as the store (`ReachesUse`).
-/

namespace Docich.News

/-! ## Inputs -/

/-- The texts a direction field can hold. -/
inductive Direction
  | buy
  | sell
  | none
  | neutral
  | other (text : String)
  deriving DecidableEq

/-- `confidence` and `materiality` are the numbers the source keeps as floats. -/
structure SignalAsset where
  market : String
  symbol : String
  venue : String
  deriving DecidableEq

def SignalAsset.assetRef (a : SignalAsset) : String := a.market ++ ":" ++ a.venue ++ ":" ++ a.symbol

structure NewsSignal where
  signalId : String
  asset : SignalAsset
  direction : Direction
  confidence : ℚ
  materiality : ℚ
  eventType : String
  horizonS : Int
  createdAt : Instant
  availableAt : Instant
  expiresAt : Instant
  eventGroupId : String
  evidenceRefs : List String
  classificationRef : String
  policyVersion : String
  reason : String
  noTradeReasons : Finset String
  deriving DecidableEq

structure EvidenceRecord where
  observationId : String
  contentDigest : String
  eligibleUntil : Instant
  eventGroupId : String

structure PriceCandidate where
  assetRef : String
  direction : Direction
  ref : String
  policyVersion : String

structure FixtureComposerPolicy where
  minConfidence : ℚ := 60 / 100
  minMateriality : ℚ := 50 / 100

inductive ClassifierStatus
  | ok
  | timeout
  | unavailable
  | other (text : String)
  deriving DecidableEq

def codeNewsPriceAgree : String := "NEWS_PRICE_AGREE"
def codeNewsOnlyEligible : String := "NEWS_ONLY_ELIGIBLE"
def codeNewsPriceConflict : String := "NEWS_PRICE_CONFLICT"
def codeNewsConflict : String := "NEWS_CONFLICT"
def codeNewsDuplicate : String := "NEWS_DUPLICATE"
def codeEventAlreadyUsed : String := "EVENT_ALREADY_USED"
def codeCooldownActive : String := "COOLDOWN_ACTIVE"
def codeNewsUnavailable : String := "NEWS_UNAVAILABLE"
def codeNoDirection : String := "NO_DIRECTION"
def codeSignalExpired : String := "SIGNAL_EXPIRED"
def codeEvidenceNotAvailable : String := "EVIDENCE_NOT_AVAILABLE"
def codeClassifierTimeout : String := "CLASSIFIER_TIMEOUT"
def codeClassifierUnavailable : String := "CLASSIFIER_UNAVAILABLE"
def codeClassifierOutputInvalid : String := "CLASSIFIER_OUTPUT_INVALID"
def codeClassifierLowConfidence : String := "CLASSIFIER_LOW_CONFIDENCE"
def codeMaterialityLow : String := "MATERIALITY_LOW"

/-- The code of the `CompositionError` that `validate` raises, if it raises. -/
def PriceCandidate.validate (price : PriceCandidate) : Except String Unit :=
  if price.direction ≠ .buy ∧ price.direction ≠ .sell ∧ price.direction ≠ .none then
    .error "VALUE_OUT_OF_RANGE"
  else if price.assetRef = "" ∨ price.ref = "" ∨ price.policyVersion = "" then
    .error "VALUE_OUT_OF_RANGE"
  else
    .ok ()

/-! ## Outcomes and the store -/

inductive Arm
  | a
  | b
  | c

inductive OutcomeStatus
  | candidate
  | held

structure CompositionOutcome where
  arm : Arm
  scenarioId : String
  assetRef : String
  status : OutcomeStatus
  reasonCodes : Finset String
  priceRef : Option String
  signalRef : Option String
  mode : String := "paper"
  liveEligible : Bool := false

/-- The outcomes of arms A, B and C, in the order `compose` lists them. -/
structure CompositionResult where
  a : CompositionOutcome
  b : CompositionOutcome
  c : CompositionOutcome

structure InMemoryEventUseStore where
  usedKeys : Finset (String × String × String)
  cooldown : String × String → Option Instant
  dedupe : Finset String
  cooldownS : Int

namespace InMemoryEventUseStore

def init (cooldownS : Int) : InMemoryEventUseStore := ⟨∅, fun _ => none, ∅, cooldownS⟩

variable (s : InMemoryEventUseStore)

def used (key : String × String × String) : Bool := key ∈ s.usedKeys

def record (key : String × String × String) : InMemoryEventUseStore :=
  { s with usedKeys := insert key s.usedKeys }

def cooldownActive (scenarioId assetRef : String) (now : Instant) : Bool :=
  match s.cooldown (scenarioId, assetRef) with
  | none => false
  | some limit => now < limit

def recordCooldown (scenarioId assetRef : String) (now : Instant) : InMemoryEventUseStore :=
  { s with cooldown := Function.update s.cooldown (scenarioId, assetRef) (some (now + s.cooldownS * 1000000)) }

def seenDedupeKey (key : String) : Bool := key ∈ s.dedupe

def recordDedupeKey (key : String) : InMemoryEventUseStore := { s with dedupe := insert key s.dedupe }

end InMemoryEventUseStore

/-! ## Gates -/

section Gates

variable (sha256 : String → String)

/-- The digest of the scenario and the sorted evidence digests. -/
def dedupeKey (scenarioId : String) (evidence : List EvidenceRecord) : String :=
  sha256 (scenarioId ++ ":" ++
    String.intercalate ":" ((evidence.map EvidenceRecord.contentDigest).insertionSort (· ≤ ·)))

/-- The record of an evidence id: the last one listed under it. -/
def evidenceOf (evidence : List EvidenceRecord) (ref : String) : Option EvidenceRecord :=
  evidence.reverse.find? fun item => item.observationId = ref

def verifyEvidenceAtDecision (signal : NewsSignal) (evidence : List EvidenceRecord) (now : Instant) :
    Option String :=
  let stale := signal.evidenceRefs.any fun ref =>
    match evidenceOf evidence ref with
    | none => true
    | some record => record.eventGroupId ≠ signal.eventGroupId || record.eligibleUntil ≤ now
  if stale then some codeEvidenceNotAvailable else none

def newsGates (signal : Option NewsSignal) (signals : List NewsSignal) (evidence : List EvidenceRecord)
    (now : Instant) : Option (Finset String) :=
  let directions := ((signals.map NewsSignal.direction).filter (· ≠ .neutral)).toFinset
  if 1 < directions.card then
    some {codeNewsConflict}
  else
    match signal with
    | none => some {codeNewsUnavailable}
    | some signal =>
      if signal.expiresAt ≤ now then
        some {codeSignalExpired}
      else
        match verifyEvidenceAtDecision signal evidence now with
        | some failure => some {failure}
        | none =>
          if signal.direction = .neutral ∨ signal.noTradeReasons ≠ ∅ then
            some ({codeNoDirection} ∪ signal.noTradeReasons)
          else
            none

def thresholdGates (signal : NewsSignal) (policy : FixtureComposerPolicy) : Option (Finset String) :=
  let low := if signal.confidence < policy.minConfidence then {codeClassifierLowConfidence} else ∅
  let codes := if signal.materiality < policy.minMateriality then insert codeMaterialityLow low else low
  if codes = ∅ then none else some codes

def NewsSignal.assetOf (signal : NewsSignal) : String := signal.asset.assetRef

/-- The key under which a scenario uses an event on an asset. -/
def NewsSignal.useKey (signal : NewsSignal) (scenarioId : String) : String × String × String :=
  (scenarioId, signal.eventGroupId, signal.assetOf)

/-- Event use first, then the cooldown of the asset, then the dedupe key. -/
def useGates (signal : NewsSignal) (evidence : List EvidenceRecord) (store : InMemoryEventUseStore)
    (scenarioId : String) (now : Instant) : Option (Finset String) :=
  if store.used (signal.useKey scenarioId) then
    some {codeEventAlreadyUsed}
  else if store.cooldownActive scenarioId signal.assetOf now then
    some {codeCooldownActive}
  else if store.seenDedupeKey (dedupeKey sha256 scenarioId evidence) then
    some {codeNewsDuplicate}
  else
    none

/-- What a candidate of arm B or C writes. -/
def recordUse (signal : NewsSignal) (evidence : List EvidenceRecord) (store : InMemoryEventUseStore)
    (scenarioId : String) (now : Instant) : InMemoryEventUseStore :=
  ((store.record (signal.useKey scenarioId)).recordCooldown scenarioId signal.assetOf now).recordDedupeKey
    (dedupeKey sha256 scenarioId evidence)

/-- The last stage of arms B and C: hold by a use gate, or become the candidate `success` and write the store. -/
def useStage (hold : Finset String → CompositionOutcome) (success : CompositionOutcome) (signal : NewsSignal)
    (evidence : List EvidenceRecord) (store : InMemoryEventUseStore) (scenarioId : String) (now : Instant) :
    CompositionOutcome × InMemoryEventUseStore :=
  match useGates sha256 signal evidence store scenarioId now with
  | some uses => (hold uses, store)
  | none => (success, recordUse sha256 signal evidence store scenarioId now)

def classifierCode : ClassifierStatus → String
  | .timeout => codeClassifierTimeout
  | .unavailable => codeClassifierUnavailable
  | _ => codeClassifierOutputInvalid

def commonAsset : List NewsSignal → String
  | [] => "unknown"
  | item :: _ => item.asset.assetRef

def held (arm : Arm) (scenarioId assetRef : String) (priceRef : Option String) (signal : Option NewsSignal)
    (codes : Finset String) : CompositionOutcome where
  arm := arm
  scenarioId := scenarioId
  assetRef := assetRef
  status := .held
  reasonCodes := codes
  priceRef := priceRef
  signalRef := signal.map NewsSignal.signalId

/-- The outcome of an arm that passes every gate. -/
def candidate (arm : Arm) (scenarioId assetRef : String) (priceRef : Option String) (signal : NewsSignal)
    (code : String) : CompositionOutcome where
  arm := arm
  scenarioId := scenarioId
  assetRef := assetRef
  status := .candidate
  reasonCodes := {code}
  priceRef := priceRef
  signalRef := some signal.signalId

end Gates

/-! ## The arms -/

section Arms

variable (sha256 : String → String)

def composeArmA (price : PriceCandidate) (scenarioId : String) : Except String CompositionOutcome :=
  match price.validate with
  | .error code => .error code
  | .ok () =>
    if price.direction = .none then
      .ok { arm := .a, scenarioId := scenarioId, assetRef := price.assetRef, status := .held,
            reasonCodes := {codeNoDirection}, priceRef := some price.ref, signalRef := none }
    else
      .ok { arm := .a, scenarioId := scenarioId, assetRef := price.assetRef, status := .candidate,
            reasonCodes := ∅, priceRef := some price.ref, signalRef := none }

def composeArmB (price : PriceCandidate) (signal : Option NewsSignal) (signals : List NewsSignal)
    (evidence : List EvidenceRecord) (store : InMemoryEventUseStore) (scenarioId : String) (now : Instant)
    (policy : FixtureComposerPolicy) (classifierStatus : ClassifierStatus) :
    Except String (CompositionOutcome × InMemoryEventUseStore) :=
  let hold (codes : Finset String) := held .b scenarioId price.assetRef (some price.ref) signal codes
  match price.validate with
  | .error code => .error code
  | .ok () =>
    if classifierStatus ≠ .ok then
      .ok (hold {classifierCode classifierStatus}, store)
    else
      match newsGates signal signals evidence now, signal with
      | some gates, _ => .ok (hold gates, store)
      | none, none => .error "AssertionError"
      | none, some news =>
        if price.direction = .none then
          .ok (hold {codeNoDirection}, store)
        else if news.direction ≠ price.direction then
          .ok (hold {codeNewsPriceConflict}, store)
        else
          match thresholdGates news policy with
          | some thresholds => .ok (hold thresholds, store)
          | none =>
            let success := candidate .b scenarioId price.assetRef (some price.ref) news codeNewsPriceAgree
            .ok (useStage sha256 hold success news evidence store scenarioId now)

def composeArmC (signal : Option NewsSignal) (signals : List NewsSignal) (evidence : List EvidenceRecord)
    (store : InMemoryEventUseStore) (scenarioId : String) (now : Instant) (policy : FixtureComposerPolicy)
    (classifierStatus : ClassifierStatus) : Except String (CompositionOutcome × InMemoryEventUseStore) :=
  let assetRef := match signal with
    | some news => news.asset.assetRef
    | none => commonAsset signals
  let hold (codes : Finset String) := held .c scenarioId assetRef none signal codes
  if classifierStatus ≠ .ok then
    .ok (hold {classifierCode classifierStatus}, store)
  else
    match newsGates signal signals evidence now, signal with
    | some gates, _ => .ok (hold gates, store)
    | none, none => .error "AssertionError"
    | none, some news =>
      match thresholdGates news policy with
      | some thresholds => .ok (hold thresholds, store)
      | none =>
        let success := candidate .c scenarioId assetRef none news codeNewsOnlyEligible
        .ok (useStage sha256 hold success news evidence store scenarioId now)

/-- The arguments of one `compose` call, the store apart. -/
structure ComposeCall where
  price : PriceCandidate
  signal : Option NewsSignal
  signals : List NewsSignal
  evidence : List EvidenceRecord
  scenarioId : String
  now : Instant
  policy : FixtureComposerPolicy := {}
  classifierStatus : ClassifierStatus := .ok

/-- The signals the arms see: the listed ones, with the call's own signal in front when it is not among them. -/
def ComposeCall.allSignals (q : ComposeCall) : List NewsSignal :=
  match q.signal with
  | some signal => if signal ∈ q.signals then q.signals else signal :: q.signals
  | none => q.signals

def ComposeCall.armB (q : ComposeCall) (store : InMemoryEventUseStore) :
    Except String (CompositionOutcome × InMemoryEventUseStore) :=
  composeArmB sha256 q.price q.signal q.allSignals q.evidence store q.scenarioId q.now q.policy q.classifierStatus

def ComposeCall.armC (q : ComposeCall) (store : InMemoryEventUseStore) :
    Except String (CompositionOutcome × InMemoryEventUseStore) :=
  composeArmC sha256 q.signal q.allSignals q.evidence store q.scenarioId q.now q.policy q.classifierStatus

/-- The three arms in one pass over one store. -/
def compose (q : ComposeCall) (store : InMemoryEventUseStore) :
    Except String (CompositionResult × InMemoryEventUseStore) := do
  let a ← composeArmA q.price q.scenarioId
  let (b, store) ← q.armB sha256 store
  let (c, store) ← q.armC sha256 store
  pure (⟨a, b, c⟩, store)

end Arms

end Docich.News
