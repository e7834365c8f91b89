import Docich.News.Composition

/-!
# Noninterference of the counterfactual arms

A run of `compose` calls on one store is compared with the runs of arm B alone and of arm C alone. An arm reads and
writes the store only in its last stage, so arm B leaves the store alone in every call that does not reach it
(`ComposeCall.ReachesUse`), and the two runs agree. The first call that does reach it tells them apart: either arm C
already used the event and blocks B, or B uses it and blocks the C of the same pass.
-/

namespace Docich.News

variable (sha256 : String → String)

/-! ## What an arm does with the store -/

/-- The signal with which the call's arm B comes to the use gates. -/
def ComposeCall.ReachesUse (q : ComposeCall) (news : NewsSignal) : Prop :=
  q.price.validate = .ok () ∧ q.classifierStatus = .ok ∧ q.signal = some news ∧
    newsGates q.signal q.allSignals q.evidence q.now = none ∧ q.price.direction ≠ .none ∧
    news.direction = q.price.direction ∧ thresholdGates news q.policy = none

variable {sha256} {q : ComposeCall} {news : NewsSignal} {s : InMemoryEventUseStore}
variable {evidence : List EvidenceRecord} {now : Instant} {code scenarioId : String}
    {before : List ComposeCall}

theorem newsGates_none {signals : List NewsSignal} :
    newsGates none signals evidence now ≠ none := by
  unfold newsGates
  dsimp only
  split <;> simp

variable (hv : q.price.validate = .ok ())

include hv in
variable (sha256) in
/-- An arm B that does not come to the use gates is held whatever the store is, and writes none. -/
theorem armB_held (h : ∀ news, ¬ q.ReachesUse news) :
    ∃ o, o.status = .held ∧ ∀ s, q.armB sha256 s = .ok (o, s) := by
  unfold ComposeCall.armB composeArmB
  rw [hv]
  by_cases hok : q.classifierStatus = .ok
  · rw [hok]
    cases hg : newsGates q.signal q.allSignals q.evidence q.now with
    | some gates => exact ⟨_, rfl, fun s => rfl⟩
    | none =>
      cases hs : q.signal with
      | none => exact absurd (hs ▸ hg) newsGates_none
      | some news =>
        by_cases hd : q.price.direction = .none
        · exact ⟨_, rfl, fun s => by simp only [hd, ↓reduceIte, ne_eq, not_true]; rfl⟩
        · by_cases hn : news.direction = q.price.direction
          · cases ht : thresholdGates news q.policy with
            | some thresholds => exact ⟨_, rfl, fun s => by simp only [hd, hn, ht, ↓reduceIte, ne_eq, not_true]; rfl⟩
            | none => exact absurd ⟨hv, hok, hs, hg, hd, hn, ht⟩ (h news)
          · exact ⟨_, rfl, fun s => by simp only [hd, hn, ↓reduceIte, ne_eq, not_true, not_false_eq_true]; rfl⟩
  · exact ⟨_, rfl, fun s => by simp only [hok, ne_eq, not_false_eq_true, ↓reduceIte]; rfl⟩

/-- An arm B that comes to the use gates is decided there. -/
theorem armB_reaches (h : q.ReachesUse news) (s : InMemoryEventUseStore) :
    q.armB sha256 s = .ok (useStage sha256 (held .b q.scenarioId q.price.assetRef (some q.price.ref) (some news))
      (candidate .b q.scenarioId q.price.assetRef (some q.price.ref) news codeNewsPriceAgree) news q.evidence s
      q.scenarioId q.now) := by
  obtain ⟨hv, hok, hs, hg, hd, hn, ht⟩ := h
  rw [hs] at hg
  unfold ComposeCall.armB composeArmB
  simp only [hv, hok, hs, hg, hd, hn, ht, ne_eq, not_true, ↓reduceIte]

/-- Where arm B comes to the use gates, arm C comes to the same ones. -/
theorem armC_reaches (h : q.ReachesUse news) (s : InMemoryEventUseStore) :
    q.armC sha256 s = .ok (useStage sha256 (held .c q.scenarioId news.asset.assetRef none (some news))
      (candidate .c q.scenarioId news.asset.assetRef none news codeNewsOnlyEligible) news q.evidence s
      q.scenarioId q.now) := by
  obtain ⟨hv, hok, hs, hg, hd, hn, ht⟩ := h
  rw [hs] at hg
  unfold ComposeCall.armC composeArmC
  simp only [hok, hs, hg, ht, ne_eq, not_true, ↓reduceIte]

variable (sha256) in
/-- Arm C never raises. -/
theorem armC_ok (q : ComposeCall) (s : InMemoryEventUseStore) : ∃ r, q.armC sha256 s = .ok r := by
  unfold ComposeCall.armC composeArmC
  by_cases hok : q.classifierStatus = .ok
  · rw [hok]
    cases hg : newsGates q.signal q.allSignals q.evidence q.now with
    | some gates => exact ⟨_, rfl⟩
    | none =>
      cases hs : q.signal with
      | none => exact absurd (hs ▸ hg) newsGates_none
      | some news =>
        cases ht : thresholdGates news q.policy with
        | some thresholds => exact ⟨_, by simp only [ne_eq, not_true, ↓reduceIte, ht]; rfl⟩
        | none => exact ⟨_, by simp only [ne_eq, not_true, ↓reduceIte, ht]; rfl⟩
  · exact ⟨_, by simp only [hok, ne_eq, not_false_eq_true, ↓reduceIte]; rfl⟩

include hv in
theorem composeArmA_valid : ∃ a, composeArmA q.price q.scenarioId = .ok a := by
  unfold composeArmA
  rw [hv]
  by_cases hd : q.price.direction = .none
  · exact ⟨_, by simp only [hd, ↓reduceIte]; rfl⟩
  · exact ⟨_, by simp only [hd, ↓reduceIte]; rfl⟩

theorem composeArmA_invalid (hv : q.price.validate = .error code) :
    composeArmA q.price q.scenarioId = .error code := by
  unfold composeArmA
  rw [hv]

include hv

variable (sha256) in
theorem armB_ok (s : InMemoryEventUseStore) : ∃ r, q.armB sha256 s = .ok r := by
  by_cases h : ∃ news, q.ReachesUse news
  · obtain ⟨news, h⟩ := h
    exact ⟨_, armB_reaches h s⟩
  · obtain ⟨o, -, ho⟩ := armB_held sha256 hv (fun news hn => h ⟨news, hn⟩)
    exact ⟨_, ho s⟩

variable (sha256) in
/-- A pass over a valid price candidate: arm C starts from the store that arm B leaves. -/
theorem compose_valid (s : InMemoryEventUseStore) : ∃ a b c t u,
    composeArmA q.price q.scenarioId = .ok a ∧ q.armB sha256 s = .ok (b, t) ∧ q.armC sha256 t = .ok (c, u) ∧
      compose sha256 q s = .ok (⟨a, b, c⟩, u) := by
  obtain ⟨a, ha⟩ := composeArmA_valid hv
  obtain ⟨⟨b, t⟩, hb⟩ := armB_ok sha256 hv s
  obtain ⟨⟨c, u⟩, hc⟩ := armC_ok sha256 q t
  refine ⟨a, b, c, t, u, ha, hb, hc, ?_⟩
  unfold compose
  rw [ha]
  simp only [bind, Except.bind, hb, hc, pure, Except.pure]

omit hv

theorem compose_invalid (hv : q.price.validate = .error code) (s : InMemoryEventUseStore) :
    compose sha256 q s = .error code := by
  unfold compose
  rw [composeArmA_invalid hv]
  rfl

/-- What a pass that does not raise has done. -/
theorem compose_inv {r : CompositionResult} {u : InMemoryEventUseStore} (h : compose sha256 q s = .ok (r, u)) :
    q.price.validate = .ok () ∧ ∃ t, q.armB sha256 s = .ok (r.b, t) ∧ q.armC sha256 t = .ok (r.c, u) := by
  cases hv : q.price.validate with
  | error code =>
    rw [compose_invalid hv] at h
    cases h
  | ok =>
    obtain ⟨a, b, c, t, u', -, hB, hC, hq⟩ := compose_valid sha256 hv s
    rw [hq] at h
    cases h
    exact ⟨rfl, t, hB, hC⟩

/-! ## Runs -/

section Runs

variable (sha256)

/-- The store after a pass; a pass that raises writes nothing. -/
def next (s : InMemoryEventUseStore) (q : ComposeCall) : InMemoryEventUseStore :=
  match compose sha256 q s with
  | .ok r => r.2
  | .error _ => s

/-- The store after the pass, had it been arm B's alone. -/
def nextB (s : InMemoryEventUseStore) (q : ComposeCall) : InMemoryEventUseStore :=
  match composeArmA q.price q.scenarioId, q.armB sha256 s with
  | .ok _, .ok r => r.2
  | _, _ => s

/-- The store after the pass, had it been arm C's alone. -/
def nextC (s : InMemoryEventUseStore) (q : ComposeCall) : InMemoryEventUseStore :=
  match composeArmA q.price q.scenarioId, q.armC sha256 s with
  | .ok _, .ok r => r.2
  | _, _ => s

variable (cooldownS : Int)

/-- The one store of the passes `calls`, in their order, from a fresh one. -/
def sharedStore (calls : List ComposeCall) : InMemoryEventUseStore := calls.foldl (next sha256) (.init cooldownS)

/-- The store on which arm C never wrote. -/
def storeOfB (calls : List ComposeCall) : InMemoryEventUseStore := calls.foldl (nextB sha256) (.init cooldownS)

/-- The store on which arm B never wrote. -/
def storeOfC (calls : List ComposeCall) : InMemoryEventUseStore := calls.foldl (nextC sha256) (.init cooldownS)

/-- The outcomes of the pass `q` after the passes `before` are those of arms that share no store. -/
structure Independent (before : List ComposeCall) (q : ComposeCall) : Prop where
  armA : ∀ (q' : ComposeCall) (s' : InMemoryEventUseStore), q'.price = q.price → q'.scenarioId = q.scenarioId →
    (compose sha256 q' s').map (fun r => r.1.a) =
      (compose sha256 q (sharedStore sha256 cooldownS before)).map (fun r => r.1.a)
  armB : ∀ r u, compose sha256 q (sharedStore sha256 cooldownS before) = .ok (r, u) →
    ∃ t, q.armB sha256 (storeOfB sha256 cooldownS before) = .ok (r.b, t)
  armC : ∀ r u, compose sha256 q (sharedStore sha256 cooldownS before) = .ok (r, u) →
    ∃ t, q.armC sha256 (storeOfC sha256 cooldownS before) = .ok (r.c, t)

/-- No arm interferes with another in any pass of the run. -/
def NonInterfering (calls : List ComposeCall) : Prop :=
  ∀ before q after, calls = before ++ q :: after → Independent sha256 cooldownS before q

end Runs

variable {cooldownS : Int}

/-- The price candidate and the signal agree, and only the use gates can still hold the news arms. -/
def ComposeCall.Agrees (q : ComposeCall) : Prop := ∃ news, q.ReachesUse news

variable (sha256) in
theorem step_of_not_agrees (h : ¬ q.Agrees) (s : InMemoryEventUseStore) :
    next sha256 s q = nextC sha256 s q ∧ nextB sha256 s q = s := by
  cases hv : q.price.validate with
  | error code =>
    simp only [next, nextB, nextC, compose_invalid hv, composeArmA_invalid hv, and_self]
  | ok =>
    obtain ⟨a, b, c, t, u, ha, hb, hc, hq⟩ := compose_valid sha256 hv s
    obtain ⟨o, -, ho⟩ := armB_held sha256 hv (fun news hn => h ⟨news, hn⟩)
    have hts : t = s := by
      rw [ho s] at hb
      cases hb
      rfl
    subst hts
    constructor
    · simp only [next, nextC, hq, ha, hc]
    · simp only [nextB, ha, hb]

variable (sha256) in
theorem run_of_not_agrees {calls : List ComposeCall} (h : ∀ q ∈ calls, ¬ q.Agrees) (s : InMemoryEventUseStore) :
    calls.foldl (next sha256) s = calls.foldl (nextC sha256) s ∧ calls.foldl (nextB sha256) s = s := by
  induction calls generalizing s with
  | nil => exact ⟨rfl, rfl⟩
  | cons q calls ih =>
    obtain ⟨hq, hrest⟩ := List.forall_mem_cons.mp h
    obtain ⟨hn, hb⟩ := step_of_not_agrees sha256 hq s
    simp only [List.foldl_cons, hn, hb]
    exact ⟨(ih hrest _).1, (ih hrest _).2⟩

theorem compose_armA (q : ComposeCall) (s : InMemoryEventUseStore) :
    (compose sha256 q s).map (fun r => r.1.a) = composeArmA q.price q.scenarioId := by
  cases hv : q.price.validate with
  | error code =>
    rw [compose_invalid hv, composeArmA_invalid hv]
    rfl
  | ok =>
    obtain ⟨a, b, c, t, u, ha, -, -, hq⟩ := compose_valid sha256 hv s
    rw [hq, ha]
    rfl

theorem armA_independent {q' : ComposeCall} {s s' : InMemoryEventUseStore} (hp : q'.price = q.price)
    (hi : q'.scenarioId = q.scenarioId) :
    (compose sha256 q' s').map (fun r => r.1.a) = (compose sha256 q s).map (fun r => r.1.a) := by
  rw [compose_armA, compose_armA, hp, hi]

/-- Nothing is held on a fresh store. -/
theorem useGates_init :
    useGates sha256 news evidence (.init cooldownS) scenarioId now = none := by
  simp [useGates, InMemoryEventUseStore.init, InMemoryEventUseStore.used, InMemoryEventUseStore.cooldownActive,
    InMemoryEventUseStore.seenDedupeKey]

/-- A use that is recorded holds every later one. -/
theorem useGates_recorded :
    useGates sha256 news evidence (recordUse sha256 news evidence s scenarioId now) scenarioId now =
      some {codeEventAlreadyUsed} := by
  simp [useGates, recordUse, InMemoryEventUseStore.record, InMemoryEventUseStore.recordCooldown,
    InMemoryEventUseStore.recordDedupeKey, InMemoryEventUseStore.used]

/-- The first pass in which the news agree tells the shared store from the separate ones. -/
theorem not_independent (hb : ∀ q ∈ before, ¬ q.Agrees) (h : q.Agrees) :
    ¬ Independent sha256 cooldownS before q := by
  intro hi
  obtain ⟨news, h⟩ := h
  obtain ⟨hshared, hfresh⟩ := run_of_not_agrees sha256 hb (.init cooldownS)
  obtain ⟨a, b, c, t, u, ha, hB, hC, hq⟩ :=
    compose_valid sha256 h.1 (sharedStore sha256 cooldownS before)
  obtain ⟨tb, hb'⟩ := hi.armB _ _ hq
  obtain ⟨tc, hc'⟩ := hi.armC _ _ hq
  -- Arm B alone meets a fresh store, so it is a candidate there.
  have hfreshB : b.status = .candidate := by
    rw [storeOfB, hfresh, armB_reaches h, useStage, useGates_init] at hb'
    cases hb'
    rfl
  rw [armB_reaches h] at hB
  cases hu : useGates sha256 news q.evidence (sharedStore sha256 cooldownS before) q.scenarioId q.now with
  | some uses =>
    -- Arm C used the event before: it blocks arm B.
    rw [useStage, hu] at hB
    cases hB
    cases hfreshB
  | none =>
    -- Arm B uses the event now: it blocks the arm C of the same pass.
    rw [useStage, hu] at hB
    cases hB
    rw [armC_reaches h, useStage, useGates_recorded] at hC
    cases hC
    rw [storeOfC, ← hshared, ← sharedStore, armC_reaches h, useStage, hu] at hc'
    cases hc'

theorem independent_of_not_agrees (hb : ∀ q ∈ before, ¬ q.Agrees) (h : ¬ q.Agrees) :
    Independent sha256 cooldownS before q := by
  obtain ⟨hshared, hfresh⟩ := run_of_not_agrees sha256 hb (.init cooldownS)
  refine ⟨fun q' s' hp hs => armA_independent hp hs, fun r u hr => ?_, fun r u hr => ?_⟩
  · obtain ⟨hv, t, hB, hC⟩ := compose_inv hr
    obtain ⟨o, -, ho⟩ := armB_held sha256 hv (fun news hn => h ⟨news, hn⟩)
    rw [ho] at hB
    cases hB
    exact ⟨_, ho _⟩
  · obtain ⟨hv, t, hB, hC⟩ := compose_inv hr
    obtain ⟨o, -, ho⟩ := armB_held sha256 hv (fun news hn => h ⟨news, hn⟩)
    rw [ho] at hB
    cases hB
    rw [storeOfC, ← hshared]
    exact ⟨_, hC⟩

/-- The arms of a run do not interfere exactly when the news never agree with the price in it. -/
theorem nonInterfering_iff (calls : List ComposeCall) :
    NonInterfering sha256 cooldownS calls ↔ ∀ q ∈ calls, ¬ q.Agrees := by
  constructor
  · intro h
    classical
    by_contra hne
    simp only [not_forall, not_not, exists_prop] at hne
    obtain ⟨q, hfirst⟩ : ∃ q, calls.find? (fun q => decide q.Agrees) = some q := by
      obtain ⟨q, hq, ha⟩ := hne
      exact Option.isSome_iff_exists.mp (List.find?_isSome.mpr ⟨q, hq, by simpa using ha⟩)
    obtain ⟨ha, before, after, hsplit, hbefore⟩ := List.find?_eq_some_iff_append.mp hfirst
    exact not_independent (by simpa using hbefore) (by simpa using ha) (h before q after hsplit)
  · intro h before q after hsplit
    subst hsplit
    exact independent_of_not_agrees (fun q hq => h q (by simp [hq])) (h q (by simp))

/-- One pass with a fresh event, a buy on both sides. -/
def agreeingCall : ComposeCall where
  price := { assetRef := "stocks:XTKS:7203", direction := .buy, ref := "price_demo_001",
             policyVersion := "fixture-price-v1" }
  signal := some { signalId := "signal_demo_001", asset := ⟨"stocks", "7203", "XTKS"⟩, direction := .buy,
                   confidence := 9 / 10, materiality := 8 / 10, eventType := "earnings", horizonS := 900,
                   createdAt := 0, availableAt := 0, expiresAt := 1000, eventGroupId := "event_demo_001",
                   evidenceRefs := ["news_demo_001_r1"], classificationRef := "class_demo_001",
                   policyVersion := "fixture-signal-policy-v1", reason := "fixture", noTradeReasons := ∅ }
  signals := []
  evidence := [⟨"news_demo_001_r1",
    "aaaaaaaaaaaaaaaaaaaaaaaaaaaaaaaaaaaaaaaaaaaaaaaaaaaaaaaaaaaaaaaa", 1000, "event_demo_001"⟩]
  scenarioId := "scenario_demo"
  now := 10

theorem agreeingCall_agrees : agreeingCall.Agrees := by
  refine ⟨_, ?_, rfl, rfl, ?_, ?_, rfl, ?_⟩
  · decide
  · decide
  · decide
  · decide +kernel

/-- The digest of the one key that `agreeingCall` asks for. -/
def agreeingDigest (_ : String) : String := "b90913ebc90ef39ba388e602fb1de0720c08b8cb4313e97df011a13d2d658503"

/-- In that pass arm B takes the event from arm C. -/
theorem compose_interferes : ¬ NonInterfering agreeingDigest 1800 [agreeingCall] := by
  intro h
  exact not_independent (by simp) agreeingCall_agrees (h [] agreeingCall [] rfl)

end Docich.News
