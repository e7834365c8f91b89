import Docich.News.Arms

/-!
# What a candidate of arm B has passed

A candidate of arm B should be confirmed by its news (`Confirmed`): the gates of the call itself, and freshness with
respect to everything that earlier candidates used (`Use`). The store answers for the second part, so it has to know
every use (`Recorded`), which one pass keeps and therefore a run keeps.

The arm reads the asset of the signal at the use gates and the asset of the price in its outcome, and compares the
two nowhere. Runs whose signals are about the price's own asset are sound (`armB_sound`); a signal about another asset
confirms the price all the same (`armB_confirms_other_asset`).
-/

namespace Docich.News

open List Function Finset

/-! ## Uses -/

/-- What a candidate of a news arm uses up: the event on the asset of its outcome, the evidence, and the time. -/
structure Use where
  scenarioId : String
  eventGroupId : String
  assetRef : String
  digests : List String
  now : Instant

def Use.key (u : Use) : String × String × String := (u.scenarioId, u.eventGroupId, u.assetRef)

/-- The scenario and the asset of the use. -/
def Use.place (u : Use) : String × String := (u.scenarioId, u.assetRef)

/-- The dedupe key that the store was given. -/
def Use.dedupeKey (sha256 : String → String) (u : Use) : String :=
  sha256 (u.scenarioId ++ ":" ++ String.intercalate ":" (u.digests.insertionSort (· ≤ ·)))

def ComposeCall.digests (q : ComposeCall) : List String := q.evidence.map EvidenceRecord.contentDigest

/-- The use by an outcome of the call, if it is a candidate. -/
def ComposeCall.useOf (q : ComposeCall) (o : CompositionOutcome) : List Use :=
  match o.status, q.signal with
  | .candidate, some news => [⟨o.scenarioId, news.eventGroupId, o.assetRef, q.digests, q.now⟩]
  | _, _ => []

section Uses

variable (sha256 : String → String)

/-- The uses by the arms B and C of one pass. -/
def ComposeCall.uses (q : ComposeCall) (s : InMemoryEventUseStore) : List Use :=
  match compose sha256 q s with
  | .ok (r, _) => q.useOf r.b ++ q.useOf r.c
  | .error _ => []

/-- The uses by the passes `calls` from the store `s`, in their order. -/
def usesFrom (s : InMemoryEventUseStore) : List ComposeCall → List Use
  | [] => []
  | q :: calls => q.uses sha256 s ++ usesFrom (next sha256 s q) calls

variable (cooldownS : Int)

def usesOf (calls : List ComposeCall) : List Use := usesFrom sha256 (.init cooldownS) calls

/-- The last use of the asset in the scenario. -/
def lastUse (uses : List Use) (place : String × String) : Option Use := uses.reverse.find? fun u => u.place = place

/-- The end of the cooldown that a use starts. -/
def Use.rest (u : Use) : Instant := u.now + cooldownS * 1000000

/-- What a candidate of arm B should have passed, after the earlier uses `uses`. -/
structure Confirmed (uses : List Use) (q : ComposeCall) (news : NewsSignal) : Prop where
  classifier : q.classifierStatus = .ok
  signal : q.signal = some news
  asset : news.assetOf = q.price.assetRef
  direction : news.direction = q.price.direction
  agree : ∀ m ∈ q.allSignals, ∀ n ∈ q.allSignals, m.direction ≠ .neutral → n.direction ≠ .neutral →
    m.direction = n.direction
  unexpired : q.now < news.expiresAt
  evidence : ∀ ref ∈ news.evidenceRefs, ∃ item ∈ q.evidence, item.observationId = ref
  items : ∀ item ∈ q.evidence, item.observationId ∈ news.evidenceRefs →
    q.now < item.eligibleUntil ∧ item.eventGroupId = news.eventGroupId
  confidence : q.policy.minConfidence ≤ news.confidence
  materiality : q.policy.minMateriality ≤ news.materiality
  event : ∀ u ∈ uses, u.key ≠ (q.scenarioId, news.eventGroupId, q.price.assetRef)
  evidenceSet : ∀ u ∈ uses, u.scenarioId = q.scenarioId → u.digests.toFinset ≠ q.digests.toFinset
  rested : ∀ u, lastUse uses (q.scenarioId, q.price.assetRef) = some u → u.rest cooldownS ≤ q.now
  restedAll : 0 ≤ cooldownS → ∀ u ∈ uses, u.place = (q.scenarioId, q.price.assetRef) → u.rest cooldownS ≤ q.now

/-- The store knows every use, and no event was used twice. -/
structure Recorded (uses : List Use) (s : InMemoryEventUseStore) : Prop where
  kept : s.cooldownS = cooldownS
  events : ∀ u ∈ uses, u.key ∈ s.usedKeys
  evidence : ∀ u ∈ uses, u.dedupeKey sha256 ∈ s.dedupe
  digests : ∀ u ∈ uses, u.digests.Nodup
  last : ∀ place, s.cooldown place = (lastUse uses place).map (Use.rest cooldownS)
  rest : 0 ≤ cooldownS → ∀ u ∈ uses, ∃ limit, s.cooldown u.place = some limit ∧ u.rest cooldownS ≤ limit
  once : uses.Pairwise fun u v => u.key ≠ v.key

/-- Every candidate of arm B is confirmed, on the store of any passes before it, and no event is used twice. -/
structure Sound (calls : List ComposeCall) : Prop where
  confirmed : ∀ before q after, calls = before ++ q :: after →
    ∀ o t, q.armB sha256 (sharedStore sha256 cooldownS before) = .ok (o, t) → o.status = .candidate →
      ∃ news, Confirmed cooldownS (usesOf sha256 cooldownS before) q news
  once : (usesOf sha256 cooldownS calls).Pairwise fun u v => u.key ≠ v.key

end Uses

/-- The signal that comes to the use gates is about the asset of the price, and the evidence repeats no item. -/
structure ComposeCall.OneAsset (q : ComposeCall) : Prop where
  asset : ∀ news, q.ReachesUse news → news.assetOf = q.price.assetRef
  observations : (q.evidence.map EvidenceRecord.observationId).Nodup
  digests : q.digests.Nodup

variable {sha256 : String → String} {q : ComposeCall} {news : NewsSignal} {s t : InMemoryEventUseStore}
  {o : CompositionOutcome} {uses : List Use} {cooldownS : Int}

/-! ## What the arms do -/

variable {evidence : List EvidenceRecord}
variable {scenarioId : String} {now : Instant} {calls : List ComposeCall}

theorem useStage_inv {hold : Finset String → CompositionOutcome} {success : CompositionOutcome}
    (h : useStage sha256 hold success news evidence s scenarioId now = (o, t)) :
    ((∃ codes, o = hold codes) ∧ t = s) ∨ (useGates sha256 news evidence s scenarioId now = none ∧ o = success ∧
      t = recordUse sha256 news evidence s scenarioId now) := by
  unfold useStage at h
  cases hu : useGates sha256 news evidence s scenarioId now with
  | some uses =>
    rw [hu] at h
    cases h
    exact Or.inl ⟨⟨uses, rfl⟩, rfl⟩
  | none =>
    rw [hu] at h
    cases h
    exact Or.inr ⟨rfl, rfl, rfl⟩

/-- Arm B is held and writes nothing, or has passed every gate. -/
theorem armB_inv (h : q.armB sha256 s = .ok (o, t)) :
    (o.status = .held ∧ t = s) ∨
    ∃ news, q.ReachesUse news ∧ useGates sha256 news q.evidence s q.scenarioId q.now = none ∧
      o = candidate .b q.scenarioId q.price.assetRef (some q.price.ref) news codeNewsPriceAgree ∧
      t = recordUse sha256 news q.evidence s q.scenarioId q.now := by
  by_cases hr : ∃ news, q.ReachesUse news
  · obtain ⟨news, hr⟩ := hr
    rw [armB_reaches hr, Except.ok.injEq] at h
    rcases useStage_inv h with ⟨⟨codes, rfl⟩, rfl⟩ | hdone
    · exact Or.inl ⟨rfl, rfl⟩
    · exact Or.inr ⟨news, hr, hdone⟩
  · cases hv : q.price.validate with
    | error code =>
      unfold ComposeCall.armB composeArmB at h
      rw [hv] at h
      cases h
    | ok =>
      obtain ⟨o', ho', hs⟩ := armB_held sha256 hv (fun news hn => hr ⟨news, hn⟩)
      rw [hs] at h
      cases h
      exact Or.inl ⟨ho', rfl⟩

/-- Arm C is held and writes nothing, or has passed the use gates. -/
theorem armC_inv (h : q.armC sha256 s = .ok (o, t)) :
    (o.status = .held ∧ t = s) ∨
    ∃ news, q.signal = some news ∧ useGates sha256 news q.evidence s q.scenarioId q.now = none ∧
      o = candidate .c q.scenarioId news.assetOf none news codeNewsOnlyEligible ∧
      t = recordUse sha256 news q.evidence s q.scenarioId q.now := by
  unfold ComposeCall.armC composeArmC at h
  by_cases hok : q.classifierStatus = .ok
  · rw [hok] at h
    cases hg : newsGates q.signal q.allSignals q.evidence q.now with
    | some gates =>
      simp only [hg, ne_eq, not_true, ↓reduceIte] at h
      cases h
      exact Or.inl ⟨rfl, rfl⟩
    | none =>
      cases hs : q.signal with
      | none => exact absurd (hs ▸ hg) newsGates_none
      | some news =>
        rw [hs] at hg
        simp only [hs, hg, ne_eq, not_true, ↓reduceIte] at h
        cases ht : thresholdGates news q.policy with
        | some thresholds =>
          rw [ht] at h
          cases h
          exact Or.inl ⟨rfl, rfl⟩
        | none =>
          rw [ht, Except.ok.injEq] at h
          rcases useStage_inv h with ⟨⟨codes, rfl⟩, rfl⟩ | hdone
          · exact Or.inl ⟨rfl, rfl⟩
          · exact Or.inr ⟨news, rfl, hdone⟩
  · simp only [hok, ne_eq, not_false_eq_true, ↓reduceIte] at h
    cases h
    exact Or.inl ⟨rfl, rfl⟩

/-! ## The use gates -/

theorem useGates_passed (h : useGates sha256 news evidence s scenarioId now = none) : news.useKey scenarioId ∉ s.usedKeys ∧
    (∀ limit, s.cooldown (scenarioId, news.assetOf) = some limit → limit ≤ now) ∧
    dedupeKey sha256 scenarioId evidence ∉ s.dedupe := by
  unfold useGates at h
  split at h
  · cases h
  next hused =>
    split at h
    · cases h
    next hcool =>
      split at h
      · cases h
      next hseen =>
        refine ⟨by simpa [InMemoryEventUseStore.used] using hused, fun limit hl => ?_,
          by simpa [InMemoryEventUseStore.seenDedupeKey] using hseen⟩
        simpa [InMemoryEventUseStore.cooldownActive, hl] using hcool

/-- The use by a candidate about the signal's own asset. -/
def ComposeCall.useOfNews (q : ComposeCall) (news : NewsSignal) : Use :=
  ⟨q.scenarioId, news.eventGroupId, news.assetOf, q.digests, q.now⟩

theorem useOf_held (h : o.status = .held) : q.useOf o = [] := by
  simp [ComposeCall.useOf, h]

/-- Lists without repetition that hold the same digests have one dedupe key. -/
theorem dedupeKey_congr {u : Use} (hu : u.digests.Nodup) (hq : q.digests.Nodup) (hs : u.scenarioId = q.scenarioId)
    (h : u.digests.toFinset = q.digests.toFinset) : u.dedupeKey sha256 = dedupeKey sha256 q.scenarioId q.evidence := by
  have hperm : u.digests.Perm q.digests := by
    refine (perm_ext_iff_of_nodup hu hq).mpr fun d => ?_
    rw [← mem_toFinset, h, mem_toFinset]
  have hsort : u.digests.insertionSort (· ≤ ·) = q.digests.insertionSort (· ≤ ·) :=
    Perm.eq_of_pairwise' (pairwise_insertionSort _ _) (pairwise_insertionSort _ _)
      (((perm_insertionSort _ _).trans hperm).trans (perm_insertionSort _ _).symm)
  rw [Use.dedupeKey, dedupeKey, hsort, hs]
  rfl

theorem lastUse_append (uses : List Use) (u : Use) (place : String × String) :
    lastUse (uses ++ [u]) place = if u.place = place then some u else lastUse uses place := by
  simp only [lastUse, reverse_append, reverse_singleton, singleton_append, List.find?_cons]
  by_cases h : u.place = place <;> simp [h]

section Recorded

variable (hr : Recorded sha256 cooldownS uses s)
include hr

variable (h : useGates sha256 news q.evidence s q.scenarioId q.now = none)

include h in
/-- A signal that passes the use gates was used by no earlier candidate. -/
theorem Recorded.event :
    ∀ u ∈ uses, u.key ≠ (q.useOfNews news).key := by
  intro u hu hk
  have hmem := hr.events u hu
  rw [hk] at hmem
  exact (useGates_passed h).1 hmem

theorem Recorded.evidenceSet (hd : q.digests.Nodup)
    (h : useGates sha256 news q.evidence s q.scenarioId q.now = none) :
    ∀ u ∈ uses, u.scenarioId = q.scenarioId → u.digests.toFinset ≠ q.digests.toFinset := by
  intro u hu hs hsets
  exact (useGates_passed h).2.2 (dedupeKey_congr (hr.digests u hu) hd hs hsets ▸ hr.evidence u hu)

include h

theorem Recorded.rested (u : Use)
    (hu : lastUse uses (q.scenarioId, news.assetOf) = some u) : u.rest cooldownS ≤ q.now := by
  refine (useGates_passed h).2.1 _ ?_
  rw [hr.last, hu]
  rfl

theorem Recorded.restedAll (hc : 0 ≤ cooldownS) :
    ∀ u ∈ uses, u.place = (q.scenarioId, news.assetOf) → u.rest cooldownS ≤ q.now := by
  intro u hu hp
  obtain ⟨limit, hl, hle⟩ := hr.rest hc u hu
  exact hle.trans ((useGates_passed h).2.1 limit (hp ▸ hl))

omit h

theorem Recorded.cooldown_recordUse :
    (recordUse sha256 news q.evidence s q.scenarioId q.now).cooldown =
      update s.cooldown (q.useOfNews news).place (some ((q.useOfNews news).rest cooldownS)) := by
  rw [Use.rest, ← hr.kept]
  rfl

/-- A candidate's use is known to the store it leaves. -/
theorem Recorded.record (hd : q.digests.Nodup) (h : useGates sha256 news q.evidence s q.scenarioId q.now = none) :
    Recorded sha256 cooldownS (uses ++ [q.useOfNews news])
      (recordUse sha256 news q.evidence s q.scenarioId q.now) where
  kept := hr.kept
  events := by
    intro u hu
    rcases List.mem_append.mp hu with hu | hu
    · exact mem_insert_of_mem (hr.events u hu)
    · rw [List.mem_singleton.mp hu]
      exact mem_insert_self _ _
  evidence := by
    intro u hu
    rcases List.mem_append.mp hu with hu | hu
    · exact mem_insert_of_mem (hr.evidence u hu)
    · rw [List.mem_singleton.mp hu]
      exact mem_insert_self _ _
  digests := by
    intro u hu
    rcases List.mem_append.mp hu with hu | hu
    · exact hr.digests u hu
    · rw [List.mem_singleton.mp hu]
      exact hd
  last := by
    intro place
    rw [lastUse_append, hr.cooldown_recordUse]
    by_cases hp : (q.useOfNews news).place = place
    · rw [← hp, update_self, if_pos rfl]
      rfl
    · rw [update_of_ne (Ne.symm hp), if_neg hp]
      exact hr.last place
  rest := by
    intro hc u hu
    rw [hr.cooldown_recordUse]
    by_cases hp : u.place = (q.useOfNews news).place
    · refine ⟨(q.useOfNews news).rest cooldownS, by rw [hp, update_self], ?_⟩
      rcases List.mem_append.mp hu with hu | hu
      · -- The earlier cooldown has ended, so the new one ends later.
        have hle : u.rest cooldownS ≤ q.now := hr.restedAll h hc u hu hp
        have hnow : q.now ≤ (q.useOfNews news).rest cooldownS :=
            le_add_of_nonneg_right (mul_nonneg hc (by decide))
        exact hle.trans hnow
      · rw [List.mem_singleton.mp hu]
    · rw [update_of_ne hp]
      rcases List.mem_append.mp hu with hu | hu
      · exact hr.rest hc u hu
      · exact absurd (congrArg Use.place (List.mem_singleton.mp hu)) hp
  once := by
    refine List.pairwise_append.mpr ⟨hr.once, List.pairwise_singleton _ _, fun u hu v hv => ?_⟩
    rw [List.mem_singleton.mp hv]
    exact hr.event h u hu

end Recorded

/-! ## Passes -/

theorem recorded_init : Recorded sha256 cooldownS [] (.init cooldownS) where
  kept := rfl
  events := by simp
  evidence := by simp
  digests := by simp
  last := fun _ => rfl
  rest := by simp
  once := Pairwise.nil

variable (hr : Recorded sha256 cooldownS uses s)

include hr

theorem Recorded.armB (hq : q.OneAsset)
    (h : q.armB sha256 s = .ok (o, t)) : Recorded sha256 cooldownS (uses ++ q.useOf o) t := by
  rcases armB_inv h with ⟨ho, rfl⟩ | ⟨news, hreach, hu, rfl, rfl⟩
  · rw [useOf_held ho, append_nil]
    exact hr
  · have huse : q.useOf (candidate .b q.scenarioId q.price.assetRef (some q.price.ref) news codeNewsPriceAgree) =
        [q.useOfNews news] := by
      simp [ComposeCall.useOf, candidate, hreach.2.2.1, ComposeCall.useOfNews, hq.asset news hreach]
    rw [huse]
    exact hr.record hq.digests hu

theorem Recorded.armC (hq : q.OneAsset)
    (h : q.armC sha256 s = .ok (o, t)) : Recorded sha256 cooldownS (uses ++ q.useOf o) t := by
  rcases armC_inv h with ⟨ho, rfl⟩ | ⟨news, hs, hu, rfl, rfl⟩
  · rw [useOf_held ho, append_nil]
    exact hr
  · have huse : q.useOf (candidate .c q.scenarioId news.assetOf none news codeNewsOnlyEligible) =
        [q.useOfNews news] := by
      simp [ComposeCall.useOf, candidate, hs, ComposeCall.useOfNews]
    rw [huse]
    exact hr.record hq.digests hu

/-- One pass: the store it leaves knows its uses too. -/
theorem Recorded.pass (hq : q.OneAsset) :
    Recorded sha256 cooldownS (uses ++ q.uses sha256 s) (next sha256 s q) := by
  unfold ComposeCall.uses next
  cases h : compose sha256 q s with
  | error code =>
    rw [append_nil]
    exact hr
  | ok r =>
    obtain ⟨-, t, hB, hC⟩ := compose_inv h
    rw [← append_assoc]
    exact (hr.armB hq hB).armC hq hC

omit hr

theorem Recorded.run (hr : Recorded sha256 cooldownS uses s)
    (h : ∀ q ∈ calls, q.OneAsset) :
    Recorded sha256 cooldownS (uses ++ usesFrom sha256 s calls) (calls.foldl (next sha256) s) := by
  induction calls generalizing uses s with
  | nil =>
    rw [usesFrom, append_nil]
    exact hr
  | cons q calls ih =>
    obtain ⟨hq, hrest⟩ := forall_mem_cons.mp h
    rw [usesFrom, ← append_assoc, foldl_cons]
    exact ih (hr.pass hq) hrest

/-- The store after a run knows its uses. -/
theorem recorded_of_run (h : ∀ q ∈ calls, q.OneAsset) :
    Recorded sha256 cooldownS (usesOf sha256 cooldownS calls) (sharedStore sha256 cooldownS calls) :=
  recorded_init.run h

/-! ## The gates of the call itself -/

/-- What the news gates let through. -/
theorem newsGates_passed {signals : List NewsSignal}
    (h : newsGates (some news) signals evidence now = none) :
    (∀ m ∈ signals, ∀ n ∈ signals, m.direction ≠ .neutral → n.direction ≠ .neutral → m.direction = n.direction) ∧
    now < news.expiresAt ∧ verifyEvidenceAtDecision news evidence now = none := by
  unfold newsGates at h
  dsimp only at h
  split at h
  · cases h
  next hcard =>
    split at h
    · cases h
    next hexp =>
      split at h
      · cases h
      next hv =>
        refine ⟨fun m hm n hn hmn hnn => ?_, not_le.mp hexp, hv⟩
        refine card_le_one.mp (not_lt.mp hcard) _ ?_ _ ?_
        · simp only [List.mem_toFinset, List.mem_filter, List.mem_map, decide_eq_true_eq]
          exact ⟨⟨m, hm, rfl⟩, hmn⟩
        · simp only [List.mem_toFinset, List.mem_filter, List.mem_map, decide_eq_true_eq]
          exact ⟨⟨n, hn, rfl⟩, hnn⟩

/-- Verified evidence: every reference has its record, unexpired and of the signal's event. -/
theorem verifyEvidence_passed (h : verifyEvidenceAtDecision news evidence now = none) : ∀ ref ∈ news.evidenceRefs, ∃ item,
      evidenceOf evidence ref = some item ∧ item.eventGroupId = news.eventGroupId ∧ now < item.eligibleUntil := by
  intro ref href
  unfold verifyEvidenceAtDecision at h
  dsimp only at h
  split at h
  · cases h
  next hstale =>
    simp only [any_eq_true, not_exists, not_and] at hstale
    have href := hstale ref href
    cases hitem : evidenceOf evidence ref with
    | none => simp [hitem] at href
    | some item =>
      simp only [hitem, Bool.or_eq_true, decide_eq_true_eq, not_or, not_not, not_le] at href
      exact ⟨item, rfl, href⟩

theorem thresholdGates_passed {policy : FixtureComposerPolicy} (h : thresholdGates news policy = none) :
    policy.minConfidence ≤ news.confidence ∧ policy.minMateriality ≤ news.materiality := by
  unfold thresholdGates at h
  by_cases hm : news.materiality < policy.minMateriality
  · simp only [if_pos hm, if_neg (insert_ne_empty _ _), reduceCtorEq] at h
  · by_cases hc : news.confidence < policy.minConfidence
    · simp only [if_neg hm, if_pos hc, if_neg (singleton_ne_empty _), reduceCtorEq] at h
    · exact ⟨not_lt.mp hc, not_lt.mp hm⟩

/-- Among records with distinct ids, a listed one is the one its id names. -/
theorem evidenceOf_mem (hn : (evidence.map EvidenceRecord.observationId).Nodup)
    {item : EvidenceRecord} (h : item ∈ evidence) : evidenceOf evidence item.observationId = some item := by
  cases hf : evidenceOf evidence item.observationId with
  | none => simpa using List.find?_eq_none.mp hf item (mem_reverse.mpr h)
  | some found =>
    have hmem : found ∈ evidence := mem_reverse.mp (mem_of_find?_eq_some hf)
    have hid : found.observationId = item.observationId := by simpa using List.find?_some hf
    rw [inj_on_of_nodup_map hn hmem h hid]

include hr in
/-- A candidate of arm B on a store that knows the earlier uses. -/
theorem confirmed_of_candidate (hq : q.OneAsset)
    (h : q.armB sha256 s = .ok (o, t)) (ho : o.status = .candidate) : ∃ news, Confirmed cooldownS uses q news := by
  rcases armB_inv h with ⟨hheld, -⟩ | ⟨news, hreach, hu, -, -⟩
  · rw [hheld] at ho
    cases ho
  · have hasset := hq.asset news hreach
    obtain ⟨-, hok, hs, hg, -, hd, ht⟩ := hreach
    rw [hs] at hg
    obtain ⟨hagree, hexp, hverify⟩ := newsGates_passed hg
    obtain ⟨hconf, hmat⟩ := thresholdGates_passed ht
    have hitems := verifyEvidence_passed hverify
    refine ⟨news, ?_⟩
    constructor
    case classifier => exact hok
    case signal => exact hs
    case asset => exact hasset
    case direction => exact hd
    case agree => exact hagree
    case unexpired => exact hexp
    case evidence =>
      intro ref href
      obtain ⟨item, hitem, -⟩ := hitems ref href
      exact ⟨item, mem_reverse.mp (mem_of_find?_eq_some hitem), by simpa using List.find?_some hitem⟩
    case items =>
      intro item hmem href
      obtain ⟨item', hitem, hgroup, hlive⟩ := hitems _ href
      rw [evidenceOf_mem hq.observations hmem] at hitem
      cases hitem
      exact ⟨hlive, hgroup⟩
    case confidence => exact hconf
    case materiality => exact hmat
    case event =>
      rw [← hasset]
      exact hr.event hu
    case evidenceSet => exact hr.evidenceSet hq.digests hu
    case rested =>
      rw [← hasset]
      exact hr.rested hu
    case restedAll =>
      rw [← hasset]
      exact hr.restedAll hu

variable (sha256 cooldownS) in
/-- Arm B is sound on every run whose signals are about the asset of the price. -/
theorem armB_sound (calls : List ComposeCall) (h : ∀ q ∈ calls, q.OneAsset) : Sound sha256 cooldownS calls where
  confirmed := by
    intro before q after hsplit o t hB ho
    subst hsplit
    exact confirmed_of_candidate (recorded_of_run fun p hp => h p (by simp [hp])) (h q (by simp)) hB ho
  once := (recorded_of_run h).once

theorem agreeingCall_oneAsset : agreeingCall.OneAsset where
  asset := by
    intro news hreach
    have hs := hreach.2.2.1
    cases hs
    decide
  observations := by decide
  digests := by decide

/-- The pass whose news agree with the price meets the condition. -/
theorem armB_sound_agreeingCall : Sound agreeingDigest 1800 [agreeingCall] :=
  armB_sound agreeingDigest 1800 [agreeingCall] (by simpa using agreeingCall_oneAsset)

/-- The same pass for a price candidate of another asset. -/
def otherAssetCall : ComposeCall :=
  { agreeingCall with price := { agreeingCall.price with assetRef := "stocks:XTKS:9984" } }

theorem otherAssetCall_reaches : otherAssetCall.ReachesUse (agreeingCall.signal.get rfl) := by
  refine ⟨?_, rfl, rfl, ?_, ?_, rfl, ?_⟩
  · decide
  · decide
  · decide
  · decide +kernel

/-- The news about one asset confirm the price candidate of another. -/
theorem armB_confirms_other_asset : ¬ ∀ calls, Sound agreeingDigest 1800 calls := by
  intro h
  have hB : otherAssetCall.armB agreeingDigest (sharedStore agreeingDigest 1800 []) = _ :=
    armB_reaches otherAssetCall_reaches _
  obtain ⟨news, hc⟩ := (h [otherAssetCall]).confirmed [] otherAssetCall [] rfl _ _ hB rfl
  have hs := hc.signal
  cases hs
  exact absurd hc.asset (by decide)

end Docich.News
