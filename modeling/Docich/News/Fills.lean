import Docich.News.Execution

/-!
# What an execution fills

* The fills of an outcome come from one eligible observation, level by level, and end the order (`FilledFrom`).
* The takes of an allocation are positive, each within its level, and together within the target (`Allocation`).
-/

namespace Docich.News

open List

/-! ## Allocation -/

/-- Takes from the levels, in their order. -/
structure Allocation (levels : List LevelTake) (pending : ℚ) (takes : List LevelTake) : Prop where
  level : ∀ t ∈ takes, 0 < t.quantity ∧ ∃ v ∈ levels, v.index = t.index ∧ v.price = t.price ∧ t.quantity ≤ v.quantity
  indices : (takes.map LevelTake.index).Sublist (levels.map LevelTake.index)
  total : totalQuantity takes ≤ max 0 pending

theorem totalQuantity_cons (t : LevelTake) (takes : List LevelTake) :
    totalQuantity (t :: takes) = t.quantity + totalQuantity takes := by
  simp [totalQuantity]

theorem allocate_allocation {lot : ℚ} (hl : 0 < lot) (levels : List LevelTake) (pending : ℚ) :
    Allocation levels pending (allocate lot levels pending) := by
  induction levels generalizing pending with
  | nil =>
    constructor
    · intro t ht
      cases ht
    · exact Sublist.refl _
    · simp [allocate, totalQuantity]
  | cons level levels ih =>
    unfold allocate
    split
    · next hp =>
      constructor
      · intro t ht
        cases ht
      · exact nil_sublist _
      · simp [totalQuantity]
    · next hp =>
      have hp : 0 < pending := not_le.mp hp
      dsimp only
      split
      · -- A level smaller than a lot is passed over.
        have h := ih pending
        constructor
        · intro t ht
          obtain ⟨hpos, v, hv, hrest⟩ := h.level t ht
          exact ⟨hpos, v, mem_cons_of_mem _ hv, hrest⟩
        · exact h.indices.cons _
        · exact h.total
      · next htake =>
        have htake : 0 < roundLotDown (min pending level.quantity) lot := not_le.mp htake
        have hle : roundLotDown (min pending level.quantity) lot ≤ min pending level.quantity := by
          unfold roundLotDown at htake ⊢
          split at htake
          · exact absurd htake (lt_irrefl 0)
          · next hq =>
            rw [if_neg hq]
            exact roundDown_le hl _
        have h := ih (pending - roundLotDown (min pending level.quantity) lot)
        constructor
        · intro t ht
          rcases mem_cons.mp ht with rfl | ht
          · exact ⟨htake, level, mem_cons_self, rfl, rfl, le_trans hle (min_le_right _ _)⟩
          · obtain ⟨hpos, v, hv, hrest⟩ := h.level t ht
            exact ⟨hpos, v, mem_cons_of_mem _ hv, hrest⟩
        · exact h.indices.cons_cons _
        · have htotal := h.total
          have hpend : roundLotDown (min pending level.quantity) lot ≤ pending := le_trans hle (min_le_left _ _)
          rw [max_eq_right (by linarith)] at htotal
          rw [totalQuantity_cons, max_eq_right hp.le]
          linarith

variable {takes levels : List LevelTake} {affordable : ℚ} {side : Side} {accountId : String}
    {receipt : ReceiptState} {clock : ClockQuality} {codes : List String} {out : ExecutionOutcome}
    {risk : RiskSnapshot} {now : Instant} {journal : List (String × Int)}

theorem totalQuantity_filter_le (h : ∀ t ∈ takes, 0 < t.quantity) (p : LevelTake → Bool) :
    totalQuantity (takes.filter p) ≤ totalQuantity takes := by
  induction takes with
  | nil => exact le_rfl
  | cons t takes ih =>
    have hrest := ih (fun u hu => h u (mem_cons_of_mem _ hu))
    have ht := h t mem_cons_self
    rw [filter_cons, totalQuantity_cons]
    split
    · rw [totalQuantity_cons]
      linarith
    · linarith

/-- Takes are left out whose fills are stored already. -/
theorem Allocation.filter {pending : ℚ} (h : Allocation levels pending takes)
    (p : LevelTake → Bool) : Allocation levels pending (takes.filter p) where
  level := fun t ht => h.level t (mem_of_mem_filter ht)
  indices := (filter_sublist.map _).trans h.indices
  total := le_trans (totalQuantity_filter_le (fun t ht => (h.level t ht).1) p) h.total

theorem plannedTakes_allocation (order : PendingOrder) (o : MarketObservation) (c : InstrumentConstraints)
    (levels : List LevelTake) (affordable : ℚ) (journal : List (String × Int)) :
    Allocation levels (targetQuantity order levels c affordable)
      (plannedTakes order o c levels affordable journal) :=
  (allocate_allocation c.lot_pos levels _).filter _

/-- The target is within what is affordable. -/
theorem targetQuantity_le {order : PendingOrder} {c : InstrumentConstraints} :
    targetQuantity order levels c affordable ≤ max 0 affordable := by
  unfold targetQuantity roundLotDown
  split
  · exact le_max_left _ _
  · apply le_trans (roundDown_le c.lot_pos _)
    exact le_trans (min_le_right _ _) (le_max_right _ _)

variable {c : InstrumentConstraints} {order : PendingOrder} {liquidity : LiquidityTracker} {o : MarketObservation}
  {observations : List MarketObservation}

theorem targetQuantity_le_remaining : targetQuantity order levels c affordable ≤ max 0 order.remainingQuantity := by
  unfold targetQuantity roundLotDown
  split
  · exact le_max_left _ _
  · apply le_trans (roundDown_le c.lot_pos _)
    apply le_trans (min_le_left _ _)
    exact le_trans (min_le_left _ _) (le_max_right _ _)

/-- What a level offers: its size's share, less what was taken of it. -/
theorem mem_availableLevels {v : LevelTake}
    (h : v ∈ availableLevels o side c liquidity accountId) :
    ∃ level, (o.levels side)[v.index]? = some level ∧ v.price = level.price ∧
      v.quantity = level.size * c.participationRate - liquidity accountId o.observationId v.index := by
  obtain ⟨⟨level, i⟩, hmem, hv⟩ := mem_filterMap.mp h
  dsimp only at hv
  split at hv
  · cases hv
  · cases hv
    obtain ⟨hi, hl⟩ := mem_zipIdx' hmem
    exact ⟨level, by rw [hl]; simp, rfl, rfl⟩

/-- Levels have distinct indices. -/
theorem availableLevels_indices :
    ((availableLevels o side c liquidity accountId).map LevelTake.index).Nodup := by
  have hsub : ((availableLevels o side c liquidity accountId).map LevelTake.index).Sublist
      ((o.levels side).zipIdx.map Prod.snd) := by
    unfold availableLevels
    generalize (o.levels side).zipIdx = entries
    induction entries with
    | nil => exact Sublist.refl _
    | cons e entries ih =>
      rw [filterMap_cons]
      dsimp only
      split
      · exact ih.cons _
      · next v hv =>
        split at hv
        · cases hv
        · cases hv
          exact ih.cons_cons _
  apply Nodup.sublist hsub
  rw [zipIdx_map_snd]
  exact nodup_range'

/-! ## Selection -/

theorem firstEligible_ok {eligible : MarketObservation → Bool} {seen : List Int}
    (h : firstEligible eligible seen observations = .ok (some o)) : o ∈ observations ∧ eligible o = true := by
  induction observations generalizing seen with
  | nil => cases h
  | cons x rest ih =>
    unfold firstEligible at h
    split at h
    · cases h
    · split at h
      · next he =>
        cases h
        exact ⟨mem_cons_self, he⟩
      · obtain ⟨hm, he⟩ := ih h
        exact ⟨mem_cons_of_mem _ hm, he⟩

/-- The observation an order is filled from. -/
structure Selected (order : PendingOrder) (receipt : ReceiptState) (fence : Fence)
    (observations : List MarketObservation) (clock : ClockQuality) (o : MarketObservation) : Prop where
  mem : o ∈ observations
  asset : o.asset = order.asset
  identity : ∃ quote, receipt.decisionQuote = some quote ∧ o.identity ≠ quote
  sequence : receipt.inputCutoffSequence < o.ingestSequence
  later : ∃ notBefore, order.notBeforeAt = some notBefore ∧
    notBefore + max clock.budget fence.clockQuality.budget < o.marketEventAt ∧
    notBefore + max clock.budget fence.clockQuality.budget < o.marketAvailableAt
  admitted : fence.fenceAt + fence.clockQuality.budget < o.availableAt

theorem selectObservation_ok {fence : Fence}
    (h : selectObservation order receipt fence observations clock = .ok (some o, codes)) :
    Selected order receipt fence observations clock o := by
  unfold selectObservation at h
  split at h
  · cases h
  · split at h
    · cases h
    · split at h
      · next notBefore quote hn hq =>
        obtain ⟨x, hx, h⟩ := bind_ok h
        cases h
        obtain ⟨hm, he⟩ := firstEligible_ok hx
        rw [mem_insertionSort] at hm
        unfold eligible Fence.admits at he
        simp only [Bool.and_eq_true, decide_eq_true_eq] at he
        obtain ⟨⟨⟨⟨⟨hasset, hid⟩, hseq⟩, hevent⟩, havail⟩, hadmit⟩ := he
        exact { mem := hm, asset := hasset, identity := ⟨quote, hq, hid⟩, sequence := hseq,
                later := ⟨notBefore, hn, hevent, havail⟩, admitted := hadmit }
      · cases h

/-! ## The outcome -/

/-- The fills of an outcome: the planned takes of one selected observation. -/
structure FilledFrom (order : PendingOrder) (receipt : ReceiptState) (fence : Option Fence)
    (observations : List MarketObservation) (c : InstrumentConstraints) (risk : RiskSnapshot) (clock : ClockQuality)
    (now : Instant) (liquidity : LiquidityTracker) (journal : List (String × Int)) (out : ExecutionOutcome)
    (f : Fence) (o : MarketObservation) : Prop where
  fence_eq : fence = some f
  fence_receipt : f.receiptId = order.receiptId
  live : order.status.terminal = false
  committed : receipt.committed = true
  receipt_id : order.receiptId = receipt.receiptId
  selected : Selected order receipt f observations clock o
  fills : ∃ isPartial, out.fills = (plannedTakes order o c (availableLevels o order.side c liquidity order.accountId)
    (affordableQuantity order.side (availableLevels o order.side c liquidity order.accountId) c risk) journal).map
      (takeFill order o c now isPartial)
  levels_ne : availableLevels o order.side c liquidity order.accountId ≠ []
  ends : out.status.terminal = true

theorem outcome_ok {status : OrderStatus} {fills : List Fill} {canceled : ℚ}
    {observationId : Option String} {terminal : Bool}
    (h : outcome order status fills canceled codes observationId terminal = .ok out) :
    out.orderId = order.orderId ∧ out.status = status ∧ out.fills = fills ∧ out.terminal = terminal := by
  unfold outcome at h
  dsimp only at h
  split at h
  · cases h
  · cases h
    exact ⟨rfl, rfl, rfl, rfl⟩

/-- The fills that are built are the planned takes. -/
theorem buildFills_fills (h : (buildFills order o c risk now liquidity journal).fills ≠ []) :
    availableLevels o order.side c liquidity order.accountId ≠ [] ∧
    ∃ isPartial, (buildFills order o c risk now liquidity journal).fills =
      (plannedTakes order o c (availableLevels o order.side c liquidity order.accountId)
        (affordableQuantity order.side (availableLevels o order.side c liquidity order.accountId) c risk) journal).map
          (takeFill order o c now isPartial) := by
  unfold buildFills at h ⊢
  dsimp only at h ⊢
  split at h
  · exact absurd rfl h
  · next hlevels =>
    rw [if_neg hlevels]
    split at h
    · exact absurd rfl h
    · next htarget =>
      rw [if_neg htarget]
      split at h
      · exact absurd rfl h
      · next hmin =>
        rw [if_neg hmin]
        split at h
        · exact absurd rfl h
        · next hfresh =>
          rw [if_neg hfresh]
          exact ⟨hlevels, _, rfl⟩

/-- Settling keeps the built fills, and ends the order with them. -/
theorem settle_ok {observationId : String} {built : BuiltFills}
    (h : settle order observationId built = .ok out) :
    out.orderId = order.orderId ∧ (out.fills ≠ [] → out.fills = built.fills ∧ out.status.terminal = true) := by
  unfold settle at h
  split at h
  · obtain ⟨hid, -, hfills, -⟩ := outcome_ok h
    exact ⟨hid, fun hne => absurd hfills hne⟩
  · split at h
    · split at h
      · obtain ⟨hid, -, hfills, -⟩ := outcome_ok h
        exact ⟨hid, fun hne => absurd hfills hne⟩
      · obtain ⟨hid, -, hfills, -⟩ := outcome_ok h
        exact ⟨hid, fun hne => absurd hfills hne⟩
    · split at h
      · obtain ⟨hid, hstatus, hfills, -⟩ := outcome_ok h
        exact ⟨hid, fun _ => ⟨hfills, by rw [hstatus]; rfl⟩⟩
      · obtain ⟨hid, hstatus, hfills, -⟩ := outcome_ok h
        exact ⟨hid, fun _ => ⟨hfills, by rw [hstatus]; rfl⟩⟩

theorem executePendingOrder_ok {fence : Option Fence}


    (h : executePendingOrder order receipt fence observations c risk clock now liquidity journal = .ok out) :
    out.orderId = order.orderId ∧ (out.fills ≠ [] → ∃ f o,
      FilledFrom order receipt fence observations c risk clock now liquidity journal out f o) := by
  have hnone : ∀ {status : OrderStatus} {canceled : ℚ} {codes : List String} {observationId : Option String}
      {terminal : Bool}, outcome order status [] canceled codes observationId terminal = .ok out →
      out.orderId = order.orderId ∧ (out.fills ≠ [] → ∃ f o,
        FilledFrom order receipt fence observations c risk clock now liquidity journal out f o) := by
    intro status canceled codes observationId terminal h
    obtain ⟨hid, -, hfills, -⟩ := outcome_ok h
    exact ⟨hid, fun hne => absurd hfills hne⟩
  unfold executePendingOrder at h
  split at h
  · exact hnone h
  · next hreceipt =>
    split at h
    · exact hnone h
    · split at h
      · exact hnone h
      · next hlive =>
        split at h
        · exact hnone h
        · split at h
          · exact hnone h
          · next hcommitted =>
            split at h
            · exact hnone h
            · split at h
              · exact hnone h
              · next f =>
                split at h
                · exact hnone h
                · next hfence =>
                  split at h
                  · exact hnone h
                  · obtain ⟨⟨x, codes⟩, hsel, h⟩ := bind_ok h
                    cases x with
                    | none => exact hnone h
                    | some o =>
                      dsimp only at h
                      split at h
                      · exact hnone h
                      · split at h
                        · split at h
                          · cases h
                          · exact hnone h
                        · obtain ⟨hid, hfills⟩ := settle_ok h
                          refine ⟨hid, fun hne => ?_⟩
                          obtain ⟨hbuilt, hends⟩ := hfills hne
                          rw [hbuilt] at hne
                          obtain ⟨hlevels, isPartial, hplan⟩ := buildFills_fills hne
                          simp only [not_or, not_not] at hcommitted hreceipt hfence
                          exact ⟨f, o, { fence_eq := rfl, fence_receipt := hfence, live := by simpa using hlive,
                                         committed := hcommitted.1, receipt_id := hreceipt,
                                         selected := selectObservation_ok hsel,
                                         fills := ⟨isPartial, hbuilt.trans hplan⟩, levels_ne := hlevels,
                                         ends := hends }⟩

end Docich.News
