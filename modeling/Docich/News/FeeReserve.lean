import Docich.News.Solvency

/-!
# What the fills cost, and what was reserved for them

`maxAffordable` reserves the fee minimum once and the proportional fee unrounded; each fill is charged the fee minimum,
or the fee rounded up. All else fits the risk snapshot (`FitsSnapshot`); the cash of a buy does exactly when what
rounding and the minimum add to the fees is within what the bound leaves of the cash (`fitsSnapshot_iff`).

* `boughtOf` is the allocation in closed form: each level in whole lots, less what the levels before it serve.
-/

namespace Docich.News

open List

variable {lot target : ℚ} {levels : List LevelTake}

/-! ## The allocation in closed form -/

def LevelTake.wholeLots (lot : ℚ) (v : LevelTake) : ℚ := roundLotDown v.quantity lot

/-- What is taken of each level: its whole lots, as far as the levels before it leave of the target. -/
def sharesOf (lot target : ℚ) (levels : List LevelTake) : List LevelTake :=
  levels.mapIdx fun i v =>
    let before := ((levels.take i).map (LevelTake.wholeLots lot)).sum
    { v with quantity := min (v.wholeLots lot) (max 0 (target - before)) }

def boughtOf (lot target : ℚ) (levels : List LevelTake) : List LevelTake :=
  (sharesOf lot target levels).filter fun t => 0 < t.quantity

theorem sharesOf_cons (lot target : ℚ) (v : LevelTake) (levels : List LevelTake) :
    sharesOf lot target (v :: levels) =
      { v with quantity := min (v.wholeLots lot) (max 0 target) } :: sharesOf lot (target - v.wholeLots lot) levels := by
  unfold sharesOf
  rw [mapIdx_cons]
  congr 1
  · simp
  · apply ext_getElem
    · simp
    · intro i h h'
      simp [sub_sub]

theorem wholeLots_nonneg (hl : 0 < lot) (v : LevelTake) : 0 ≤ v.wholeLots lot := roundLotDown_nonneg hl

/-- Nothing is bought without a target. -/
theorem boughtOf_nonpos (hl : 0 < lot) (h : target ≤ 0) : boughtOf lot target levels = [] := by
  induction levels generalizing target with
  | nil => rfl
  | cons v levels ih =>
    have hv := wholeLots_nonneg hl v
    have hzero : min (v.wholeLots lot) (max 0 target) = 0 := by rw [max_eq_left h, min_eq_right hv]
    have hrest := ih (by linarith : target - v.wholeLots lot ≤ 0)
    unfold boughtOf at hrest ⊢
    rw [sharesOf_cons, filter_cons, hzero, hrest]
    simp

theorem roundLotDown_multiple (q : ℚ) : IsMultiple lot (roundLotDown q lot) := by
  unfold roundLotDown
  split
  · exact ⟨0, by simp⟩
  · exact roundDown_multiple _ _

theorem targetQuantity_multiple (order : PendingOrder) (levels : List LevelTake) (c : InstrumentConstraints)
    (affordable : ℚ) : IsMultiple c.lot (targetQuantity order levels c affordable) := roundLotDown_multiple _

/-- Up to a target of whole lots, rounding down the lesser is the lesser of the target and the whole lots. -/
theorem roundLotDown_min (hl : 0 < lot) (htarget : IsMultiple lot target) (hpos : 0 < target) (v : LevelTake) :
    roundLotDown (min target v.quantity) lot = min (v.wholeLots lot) target := by
  unfold LevelTake.wholeLots roundLotDown
  by_cases hq : v.quantity ≤ 0
  · rw [if_pos hq, if_pos ((min_le_right _ _).trans hq), min_eq_left hpos.le]
  · have hmin : ¬ min target v.quantity ≤ 0 := not_le.mpr (lt_min hpos (not_le.mp hq))
    rw [if_neg hq, if_neg hmin]
    rcases le_total target v.quantity with hle | hle
    · rw [min_eq_left hle, min_eq_right (le_roundDown hl htarget hle)]
      exact roundDown_of_multiple hl htarget
    · rw [min_eq_right hle, min_eq_left ((roundDown_le hl _).trans hle)]

/-- The loop takes what the closed form says. -/
theorem allocate_eq_boughtOf (hl : 0 < lot) (htarget : IsMultiple lot target) :
    allocate lot levels target = boughtOf lot target levels := by
  induction levels generalizing target with
  | nil => rfl
  | cons v levels ih =>
    unfold allocate
    by_cases hpos : target ≤ 0
    · rw [if_pos hpos, boughtOf_nonpos hl hpos]
    · have hpos' : 0 < target := not_le.mp hpos
      have hbought : boughtOf lot target (v :: levels) =
          (if 0 < min (v.wholeLots lot) target then [{ v with quantity := min (v.wholeLots lot) target }] else []) ++
            boughtOf lot (target - v.wholeLots lot) levels := by
        unfold boughtOf
        rw [sharesOf_cons, filter_cons, max_eq_right hpos'.le]
        by_cases h : 0 < min (v.wholeLots lot) target
        · simp [h]
        · simp [h]
      rw [if_neg hpos, roundLotDown_min hl htarget hpos' v, hbought]
      by_cases htake : min (v.wholeLots lot) target ≤ 0
      · have hv : v.wholeLots lot = 0 := by
          apply le_antisymm ?_ (wholeLots_nonneg hl v)
          rcases min_le_iff.mp htake with h | h
          · exact h
          · exact absurd h hpos
        rw [if_pos htake, if_neg (not_lt.mpr htake), hv, sub_zero]
        exact ih htarget
      · rw [if_neg htake, if_pos (not_le.mp htake)]
        rcases le_total (v.wholeLots lot) target with hle | hle
        · rw [min_eq_left hle]
          have hrest : IsMultiple lot (target - v.wholeLots lot) := htarget.sub (roundLotDown_multiple _)
          rw [ih hrest]
          rfl
        · rw [min_eq_right hle, sub_self, boughtOf_nonpos hl (sub_nonpos.mpr hle)]
          cases levels <;> simp [allocate]

/-! ## The bound -/

section Bound

variable {side : Side} {c : InstrumentConstraints} {risk : RiskSnapshot}

theorem le_foldl_max {α : Type} (g : α → ℚ) (xs : List α) (x : ℚ) :
    x ≤ xs.foldl (fun worst a => max worst (g a)) x ∧ ∀ a ∈ xs, g a ≤ xs.foldl (fun worst a => max worst (g a)) x := by
  induction xs generalizing x with
  | nil => exact ⟨le_rfl, fun _ h => nomatch h⟩
  | cons b xs ih =>
    obtain ⟨hx, hall⟩ := ih (max x (g b))
    refine ⟨(le_max_left _ _).trans hx, fun a ha => ?_⟩
    rcases mem_cons.mp ha with rfl | ha
    · exact (le_max_right _ _).trans hx
    · exact hall a ha

theorem le_worstPrice {v : LevelTake} (hv : v ∈ levels) :
    executionPrice side v.price c ≤ worstPrice side c levels := by
  cases levels with
  | nil => cases hv
  | cons w levels =>
    obtain ⟨hfirst, hrest⟩ := le_foldl_max (fun l : LevelTake => executionPrice side l.price c) levels
      (executionPrice side w.price c)
    rcases mem_cons.mp hv with rfl | hv
    · exact hfirst
    · exact hrest v hv

/-- What the bound on a buy guarantees at the worst price. -/
structure BoundBuy (c : InstrumentConstraints) (risk : RiskSnapshot) (worst affordable : ℚ) : Prop where
  worst_pos : 0 < worst
  cash : c.feeMin + affordable * worst * (1 + c.feeBps / 10000) ≤ risk.cashAvailable
  exposure : affordable * worst ≤ risk.exposureHeadroom
  limit : ∀ limit, c.maxOrderNotional = some limit → affordable * worst ≤ limit

theorem maxAffordable_buy {price : ℚ} (h : 0 < maxAffordable .buy price c risk) :
    0 < price ∧ c.feeMin + maxAffordable .buy price c risk * price * (1 + c.feeBps / 10000) ≤ risk.cashAvailable ∧
      maxAffordable .buy price c risk * price ≤ risk.exposureHeadroom := by
  unfold maxAffordable at h ⊢
  dsimp only at h ⊢
  split at h
  · exact absurd h (lt_irrefl 0)
  · next hprice =>
    rw [if_neg hprice]
    have hprice : 0 < price := not_le.mp hprice
    split at h
    · exact absurd h (lt_irrefl 0)
    · next hunit =>
      rw [if_neg hunit]
      have hunit : 0 < price * (1 + c.feeBps / 10000) := not_le.mp hunit
      have hspend : 0 < max 0 (risk.cashAvailable - c.feeMin) := by
        by_contra hnone
        have hzero : max 0 (risk.cashAvailable - c.feeMin) = 0 := le_antisymm (not_lt.mp hnone) (le_max_left _ _)
        rw [hzero, zero_div] at h
        exact absurd (h.trans_le (min_le_left _ _)) (lt_irrefl 0)
      have hcash : 0 < risk.cashAvailable - c.feeMin := by
        rcases lt_max_iff.mp hspend with h0 | h0
        · exact absurd h0 (lt_irrefl 0)
        · exact h0
      rw [max_eq_right hcash.le]
      refine ⟨hprice, ?_, ?_⟩
      · have hmin := min_le_left ((risk.cashAvailable - c.feeMin) / (price * (1 + c.feeBps / 10000)))
          (risk.exposureHeadroom / price)
        have hmul := (le_div_iff₀ hunit).mp hmin
        linarith
      · have hmin := min_le_right ((risk.cashAvailable - c.feeMin) / (price * (1 + c.feeBps / 10000)))
          (risk.exposureHeadroom / price)
        exact (le_div_iff₀ hprice).mp hmin

/-- The bound also holds of what is left of it for the order limit. -/
theorem boundBuy (h : 0 < affordableQuantity .buy levels c risk) :
    BoundBuy c risk (worstPrice .buy c levels) (affordableQuantity .buy levels c risk) := by
  have hle : affordableQuantity .buy levels c risk ≤ maxAffordable .buy (worstPrice .buy c levels) c risk := by
    unfold affordableQuantity
    dsimp only
    split
    · split
      · exact min_le_left _ _
      · exact le_rfl
    · exact le_rfl
  obtain ⟨hworst, hcash, hexposure⟩ := maxAffordable_buy (h.trans_le hle)
  have hmul : affordableQuantity .buy levels c risk * worstPrice .buy c levels ≤
      maxAffordable .buy (worstPrice .buy c levels) c risk * worstPrice .buy c levels :=
    mul_le_mul_of_nonneg_right hle hworst.le
  have hrate : 0 ≤ 1 + c.feeBps / 10000 := by
    have hfee := div_nonneg c.feeBps_nonneg (by norm_num : (0 : ℚ) ≤ 10000)
    linarith
  constructor
  · exact hworst
  · have hfee := mul_le_mul_of_nonneg_right hmul hrate
    linarith
  · exact hmul.trans hexposure
  · intro limit hlimit
    have hmin : affordableQuantity .buy levels c risk ≤ limit / worstPrice .buy c levels := by
      unfold affordableQuantity
      rw [hlimit]
      dsimp only
      rw [if_pos hworst]
      exact min_le_right _ _
    exact (le_div_iff₀ hworst).mp hmin

end Bound

/-! ## The fills of one observation -/

section Fills

variable (order : PendingOrder) (o : MarketObservation) (c : InstrumentConstraints) (risk : RiskSnapshot)
  (liquidity : LiquidityTracker) (journal : List (String × Int))

/-- The whole lots that the remaining quantity, the depth and the bound leave, level by level. -/
def wantedTakes : List LevelTake :=
  let levels := availableLevels o order.side c liquidity order.accountId
  boughtOf c.lot (targetQuantity order levels c (affordableQuantity order.side levels c risk)) levels

/-- The wanted takes whose fills are not stored yet. -/
def freshTakes : List LevelTake :=
  (wantedTakes order o c risk liquidity).filter fun t => (o.observationId, (t.index : Int)) ∉ journal

/-- The value of takes at their execution prices. -/
def takesValue (order : PendingOrder) (c : InstrumentConstraints) (takes : List LevelTake) : ℚ :=
  (takes.map fun t => t.quantity * executionPrice order.side t.price c).sum

/-- The takes are below the minimum order. -/
def MissesMinimum (takes : List LevelTake) : Prop :=
  totalQuantity takes < c.minQuantity ∨ takesValue order c takes < c.minNotional

instance (takes : List LevelTake) : Decidable (MissesMinimum order c takes) := inferInstanceAs (Decidable (_ ∨ _))

theorem plannedTakes_eq : plannedTakes order o c (availableLevels o order.side c liquidity order.accountId)
    (affordableQuantity order.side (availableLevels o order.side c liquidity order.accountId) c risk) journal =
      freshTakes order o c risk liquidity journal := by
  unfold plannedTakes freshTakes wantedTakes
  rw [allocate_eq_boughtOf c.lot_pos (targetQuantity_multiple _ _ _ _)]

theorem boughtOf_pos {t : LevelTake} (h : t ∈ boughtOf lot target levels) : 0 < t.quantity := by
  simpa using (mem_filter.mp h).2

/-- What is filled: the fresh takes, unless the order misses its minimum. -/
def gainedTakes : List LevelTake :=
  if MissesMinimum order c (wantedTakes order o c risk liquidity) then []
  else freshTakes order o c risk liquidity journal

/-- The fills of takes; they are partial when they do not serve the whole order. -/
def fillsOfTakes (order : PendingOrder) (o : MarketObservation) (c : InstrumentConstraints) (now : Instant)
    (takes : List LevelTake) : List Fill :=
  takes.map (takeFill order o c now (decide (totalQuantity takes < order.requestedQuantity)))

theorem buildFills_eq (now : Instant) : (buildFills order o c risk now liquidity journal).fills =
    fillsOfTakes order o c now (gainedTakes order o c risk liquidity journal) := by
  have hfresh := plannedTakes_eq order o c risk liquidity journal
  have hwanted : allocate c.lot (availableLevels o order.side c liquidity order.accountId)
      (targetQuantity order (availableLevels o order.side c liquidity order.accountId) c
        (affordableQuantity order.side (availableLevels o order.side c liquidity order.accountId) c risk)) =
      wantedTakes order o c risk liquidity := allocate_eq_boughtOf c.lot_pos (targetQuantity_multiple _ _ _ _)
  have hempty : wantedTakes order o c risk liquidity = [] →
      [] = fillsOfTakes order o c now (gainedTakes order o c risk liquidity journal) := by
    intro h
    unfold fillsOfTakes gainedTakes freshTakes
    rw [h]
    simp
  unfold buildFills
  dsimp only
  split
  · next hlevels =>
    apply hempty
    unfold wantedTakes
    rw [hlevels]
    rfl
  · rw [hwanted, hfresh]
    split
    · next hnone =>
      apply hempty
      rcases hnone with hnone | hnone
      · exact boughtOf_nonpos c.lot_pos hnone
      · -- positive takes with nothing in total are no takes
        by_contra hne
        obtain ⟨t, ht⟩ := exists_mem_of_ne_nil _ hne
        have hpos : 0 < totalQuantity (wantedTakes order o c risk liquidity) := by
          apply lt_of_lt_of_le (boughtOf_pos ht)
          apply single_le_sum
          · intro x hx
            obtain ⟨u, hu, rfl⟩ := mem_map.mp hx
            exact (boughtOf_pos hu).le
          · exact mem_map_of_mem ht
        exact absurd hnone (not_le.mpr hpos)
    · split
      · next hmin =>
        have hmiss : MissesMinimum order c (wantedTakes order o c risk liquidity) := hmin
        unfold gainedTakes
        rw [if_pos hmiss]
        rfl
      · next hmin =>
        have hmeets : ¬ MissesMinimum order c (wantedTakes order o c risk liquidity) := hmin
        unfold gainedTakes
        split
        · next hnone =>
          rw [hnone]
          rfl
        · rfl

end Fills

/-! ## What was reserved -/

/-- What rounding up and the minimum add to the proportional fee. -/
def feeSurplus (c : InstrumentConstraints) (notional : ℚ) : ℚ := c.feeFor notional - notional * (c.feeBps / 10000)

def surplusOf (order : PendingOrder) (c : InstrumentConstraints) (takes : List LevelTake) : ℚ :=
  (takes.map fun t => feeSurplus c (t.quantity * executionPrice order.side t.price c)).sum

/-- What the takes leave of the cash at the proportional fee. -/
def reserveFor (order : PendingOrder) (c : InstrumentConstraints) (risk : RiskSnapshot) (takes : List LevelTake) : ℚ :=
  risk.cashAvailable - takesValue order c takes * (1 + c.feeBps / 10000)

/-- The snapshot's amounts are not negative, as its constructor checks. -/
structure RiskSnapshot.Valid (risk : RiskSnapshot) : Prop where
  cash : 0 ≤ risk.cashAvailable
  inventory : 0 ≤ risk.inventoryAvailable
  exposure : 0 ≤ risk.exposureHeadroom

/-- What the fills of one observation must fit. -/
structure FitsSnapshot (order : PendingOrder) (o : MarketObservation) (c : InstrumentConstraints) (risk : RiskSnapshot)
    (liquidity : LiquidityTracker) (fills : List Fill) : Prop where
  cash : order.side = .buy →
    (fills.map fun f => f.quantity * f.price).sum + (fills.map Fill.feeJpy).sum ≤ risk.cashAvailable
  exposure : order.side = .buy → (fills.map fun f => f.quantity * f.price).sum ≤ risk.exposureHeadroom
  limit : order.side = .buy → ∀ limit, c.maxOrderNotional = some limit →
    (fills.map fun f => f.quantity * f.price).sum ≤ limit
  inventory : order.side = .sell → (fills.map Fill.quantity).sum ≤ risk.inventoryAvailable
  lots : ∀ f ∈ fills, 0 < f.quantity ∧ IsMultiple c.lot f.quantity
  level_once : (fills.map Fill.levelIndex).Nodup
  level : ∀ f ∈ fills, ∃ (i : Nat) (level : DepthLevel), f.levelIndex = i ∧ (o.levels order.side)[i]? = some level ∧
    f.quantity ≤ level.size * c.participationRate - liquidity order.accountId o.observationId i
  total : (fills.map Fill.quantity).sum ≤ order.remainingQuantity

section Takes

variable {order : PendingOrder} {o : MarketObservation} {c : InstrumentConstraints} {risk : RiskSnapshot}
  {liquidity : LiquidityTracker} {journal : List (String × Int)}

theorem mem_boughtOf_multiple (htarget : IsMultiple lot target) {t : LevelTake} (h : t ∈ boughtOf lot target levels) :
    IsMultiple lot t.quantity := by
  have hmem := mem_of_mem_filter h
  induction levels generalizing target with
  | nil => cases hmem
  | cons v levels ih =>
    rw [sharesOf_cons] at hmem
    rcases mem_cons.mp hmem with rfl | hmem
    · rcases le_total (v.wholeLots lot) (max 0 target) with hle | hle
      · simp only [min_eq_left hle]
        exact roundLotDown_multiple _
      · simp only [min_eq_right hle]
        rcases le_total target 0 with hneg | hpos
        · rw [max_eq_left hneg]
          exact ⟨0, by simp⟩
        · rw [max_eq_right hpos]
          exact htarget
    · apply ih (htarget.sub (roundLotDown_multiple _)) ?_ hmem
      exact mem_filter.mpr ⟨hmem, (mem_filter.mp h).2⟩

theorem freshTakes_allocation : Allocation (availableLevels o order.side c liquidity order.accountId)
    (targetQuantity order (availableLevels o order.side c liquidity order.accountId) c
      (affordableQuantity order.side (availableLevels o order.side c liquidity order.accountId) c risk))
    (freshTakes order o c risk liquidity journal) := by
  rw [← plannedTakes_eq]
  exact plannedTakes_allocation order o c _ _ journal

theorem takesValue_le {worst : ℚ} {takes : List LevelTake} (hpos : ∀ t ∈ takes, 0 < t.quantity)
    (hworst : ∀ t ∈ takes, executionPrice order.side t.price c ≤ worst) :
    takesValue order c takes ≤ totalQuantity takes * worst := by
  induction takes with
  | nil => simp [takesValue, totalQuantity]
  | cons t takes ih =>
    have hrest := ih (fun u hu => hpos u (mem_cons_of_mem _ hu)) (fun u hu => hworst u (mem_cons_of_mem _ hu))
    have hmul := mul_le_mul_of_nonneg_left (hworst t mem_cons_self) (hpos t mem_cons_self).le
    have hvalue : takesValue order c (t :: takes) =
        t.quantity * executionPrice order.side t.price c + takesValue order c takes := by simp [takesValue]
    rw [hvalue, totalQuantity_cons, add_mul]
    linarith

/-- The fresh takes of a buy are within the bound at the worst price. -/
theorem freshTakes_bound (hside : order.side = .buy) (hne : freshTakes order o c risk liquidity journal ≠ []) :
    takesValue order c (freshTakes order o c risk liquidity journal) ≤ risk.exposureHeadroom ∧
    (∀ limit, c.maxOrderNotional = some limit →
      takesValue order c (freshTakes order o c risk liquidity journal) ≤ limit) ∧
    c.feeMin ≤ reserveFor order c risk (freshTakes order o c risk liquidity journal) := by
  have halloc := @freshTakes_allocation order o c risk liquidity journal
  have htarget : 0 < targetQuantity order (availableLevels o order.side c liquidity order.accountId) c
      (affordableQuantity order.side (availableLevels o order.side c liquidity order.accountId) c risk) := by
    by_contra hnone
    apply hne
    unfold freshTakes wantedTakes
    rw [boughtOf_nonpos c.lot_pos (not_lt.mp hnone)]
    rfl
  have hle := @targetQuantity_le (availableLevels o order.side c liquidity order.accountId)
    (affordableQuantity order.side (availableLevels o order.side c liquidity order.accountId) c risk) order c
  have htotal := halloc.total
  rw [max_eq_right htarget.le] at htotal
  have haffordable : 0 < affordableQuantity order.side (availableLevels o order.side c liquidity order.accountId) c
      risk := by
    rcases lt_max_iff.mp (htarget.trans_le hle) with h | h
    · exact absurd h (lt_irrefl 0)
    · exact h
  rw [max_eq_right haffordable.le] at hle
  have hvalue : takesValue order c (freshTakes order o c risk liquidity journal) ≤
      totalQuantity (freshTakes order o c risk liquidity journal) *
        worstPrice order.side c (availableLevels o order.side c liquidity order.accountId) := by
    apply takesValue_le (fun t ht => (halloc.level t ht).1)
    intro t ht
    obtain ⟨-, v, hv, -, hprice, -⟩ := halloc.level t ht
    rw [← hprice]
    exact le_worstPrice hv
  rw [hside] at haffordable hle htotal hvalue
  have hbound := boundBuy haffordable
  have hworst := mul_le_mul_of_nonneg_right (htotal.trans hle) hbound.worst_pos.le
  have hrate : 0 ≤ 1 + c.feeBps / 10000 := by
    have hfee := div_nonneg c.feeBps_nonneg (by norm_num : (0 : ℚ) ≤ 10000)
    linarith
  refine ⟨(hvalue.trans hworst).trans hbound.exposure, ?_, ?_⟩
  · exact fun limit hlimit => (hvalue.trans hworst).trans (hbound.limit limit hlimit)
  · have hfees := mul_le_mul_of_nonneg_right (hvalue.trans hworst) hrate
    have hcash := hbound.cash
    unfold reserveFor
    linarith

/-- The cost of takes at their proportional fees, and the surplus. -/
theorem fills_cost (hside : order.side = .buy) (now : Instant) (isPartial : Bool) (takes : List LevelTake) :
    ((takes.map (takeFill order o c now isPartial)).map fun f => f.quantity * f.price).sum = takesValue order c takes ∧
    ((takes.map (takeFill order o c now isPartial)).map Fill.feeJpy).sum =
      surplusOf order c takes + takesValue order c takes * (c.feeBps / 10000) := by
  constructor
  · rw [map_map]
    rfl
  · induction takes with
    | nil => simp [surplusOf, takesValue]
    | cons t takes ih =>
      simp only [map_cons, sum_cons, surplusOf, takesValue] at ih ⊢
      rw [ih]
      simp only [feeSurplus, takeFill, hside]
      ring

theorem fitsSnapshot_nil (hrisk : risk.Valid) (horder : 0 ≤ order.remainingQuantity)
    (hlimit : ∀ limit, c.maxOrderNotional = some limit → 0 ≤ limit) : FitsSnapshot order o c risk liquidity [] where
  cash := fun _ => by simpa using hrisk.cash
  exposure := fun _ => by simpa using hrisk.exposure
  limit := fun _ limit hl => by simpa using hlimit limit hl
  inventory := fun _ => by simpa using hrisk.inventory
  lots := fun _ h => nomatch h
  level_once := nodup_nil
  level := fun _ h => nomatch h
  total := by simpa using horder

/-- Only the cash of a buy is in question. -/
theorem fitsSnapshot_of_cash (hrisk : risk.Valid) (horder : 0 ≤ order.remainingQuantity)
    (hlimit : ∀ limit, c.maxOrderNotional = some limit → 0 ≤ limit) (now : Instant) (isPartial : Bool)
    (hcash : order.side = .buy → surplusOf order c (freshTakes order o c risk liquidity journal) ≤
      reserveFor order c risk (freshTakes order o c risk liquidity journal)) :
    FitsSnapshot order o c risk liquidity
      ((freshTakes order o c risk liquidity journal).map (takeFill order o c now isPartial)) := by
  have halloc := @freshTakes_allocation order o c risk liquidity journal
  by_cases hne : freshTakes order o c risk liquidity journal = []
  · rw [hne]
    exact fitsSnapshot_nil hrisk horder hlimit
  constructor
  · intro hside
    obtain ⟨hvalue, hfees⟩ := @fills_cost order o c hside now isPartial (freshTakes order o c risk liquidity journal)
    have hreserve := hcash hside
    unfold reserveFor at hreserve
    linarith
  · intro hside
    rw [(fills_cost hside now isPartial _).1]
    exact (freshTakes_bound hside hne).1
  · intro hside
    rw [(fills_cost hside now isPartial _).1]
    exact (freshTakes_bound hside hne).2.1
  · intro hside
    have hinventory : max 0 risk.inventoryAvailable = risk.inventoryAvailable := max_eq_right hrisk.inventory
    rw [quantity_fills, ← hinventory]
    apply halloc.total.trans
    apply max_le (le_max_left _ _)
    apply targetQuantity_le.trans
    apply max_le (le_max_left _ _)
    rw [hside]
    exact affordable_sell_le _ _ _
  · intro f hf
    obtain ⟨t, ht, rfl⟩ := mem_map.mp hf
    exact ⟨(halloc.level t ht).1,
      mem_boughtOf_multiple (targetQuantity_multiple _ _ _ _) (mem_of_mem_filter ht)⟩
  · have hindex : ((freshTakes order o c risk liquidity journal).map (takeFill order o c now isPartial)).map
        Fill.levelIndex = ((freshTakes order o c risk liquidity journal).map LevelTake.index).map Nat.cast := by
      rw [map_map, map_map]
      rfl
    rw [hindex]
    exact (availableLevels_indices.sublist halloc.indices).map Nat.cast_injective
  · intro f hf
    obtain ⟨t, ht, rfl⟩ := mem_map.mp hf
    obtain ⟨-, v, hv, hindex, -, hle⟩ := halloc.level t ht
    obtain ⟨level, hlevel, -, hquantity⟩ := mem_availableLevels hv
    rw [hindex] at hlevel hquantity
    rw [hquantity] at hle
    exact ⟨t.index, level, rfl, hlevel, hle⟩
  · rw [quantity_fills]
    apply halloc.total.trans
    apply max_le horder
    apply targetQuantity_le_remaining.trans
    exact max_le horder le_rfl

end Takes

def buyOfTwo : PendingOrder where
  orderId := "order-1"
  receiptId := "receipt-1"
  runId := "run-1"
  scenarioId := "scenario-1"
  accountId := "account-1"
  asset := "asset-1"
  side := .buy
  requestedQuantity := 2
  remainingQuantity := 2
  filledQuantity := 0
  status := .pending
  expiresAt := 1000
  acceptedAt := some 1
  notBeforeAt := some 1
  reservationId := "res:receipt-1"
  eventUseId := "event_use:1"

/-- Two ask levels, each with a share of one unit at `100`. -/
def twoLevels : MarketObservation :=
  { plainQuote with asks := some [⟨100, 2, pos_hundred, nonneg_two⟩, ⟨100, 2, pos_hundred, nonneg_two⟩] }

def snapshotOf (cash : ℚ) : RiskSnapshot := ⟨cash, 0, 1000⟩

def feeOfFive : InstrumentConstraints := plainConstraints 1 5 pos_one (by norm_num)

end Docich.News
