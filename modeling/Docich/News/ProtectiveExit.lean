import Docich.News.FeeReserve
import Docich.News.Caps

/-!
# Exits and entry limits

A sell is bounded by its inventory; but the bound on what is affordable also takes the exposure headroom, and the depth
is what the account's fills of either side leave of it. `exits_agree_iff` says when two runs of one sell that differ
only in cash, headroom and earlier buys fill the same.

* `fillQuote` is the observation that an order is filled from, whatever the risk and the liquidity are.
* `gainAt` is what the order gets at a level of it, in closed form.
-/

namespace Docich.News

open Durable List

/-! ## The fills of an execution -/

def fillsOfOutcome : Except Raised ExecutionOutcome → List Fill
  | .ok out => out.fills
  | .error _ => []

section Execute

variable (order : PendingOrder) (receipt : ReceiptState) (fence : Option Fence) (observations : List MarketObservation)
  (c : InstrumentConstraints) (risk : RiskSnapshot) (clock : ClockQuality) (now : Instant)
  (liquidity : LiquidityTracker) (journal : List (String × Int))

/-- The order may be filled at all. -/
def Fillable : Prop :=
  order.receiptId = receipt.receiptId ∧ clock.trusted ∧ order.status.terminal = false ∧ now < order.expiresAt ∧
    receipt.committed ∧ order.acceptedAt ≠ none ∧ order.notBeforeAt ≠ none ∧ receipt.evidenceValid

instance : Decidable (Fillable order receipt clock now) := inferInstanceAs (Decidable (_ ∧ _))

/-- The selected observation, if the market group does not turn it down. -/
def acceptedQuote (fence : Fence) : Option MarketObservation :=
  match selectObservation order receipt fence observations clock with
  | .ok (some o, []) => if marketRejection o c now = none then some o else none
  | _ => none

/-- The observation that the order is filled from. -/
def fillQuote : Option MarketObservation :=
  if Fillable order receipt clock now then
    match fence with
    | none => none
    | some f =>
      if f.receiptId = order.receiptId ∧ f.clockQuality.trusted then
        acceptedQuote order receipt observations c clock now f
      else none
  else none

variable {order receipt fence observations c risk clock now liquidity journal} {o : MarketObservation}
variable {status : OrderStatus} {canceled : ℚ} {codes : List String} {observationId : Option String}
    {terminal : Bool}

theorem fillsOfOutcome_outcome {fills : List Fill}

    (h : order.filledQuantity + (fills.map Fill.quantity).sum + canceled ≤ order.requestedQuantity) :
    fillsOfOutcome (outcome order status fills canceled codes observationId terminal) = fills := by
  unfold outcome
  rw [if_neg (by linarith)]
  rfl

theorem fillsOfOutcome_none : fillsOfOutcome (outcome order status [] canceled codes observationId terminal) = [] := by
  unfold outcome
  dsimp only
  split <;> rfl

theorem fillsOfOutcome_waiting :
    fillsOfOutcome (waiting order codes observationId terminal) = [] := fillsOfOutcome_none

theorem fillsOfOutcome_ended {code : String} :
    fillsOfOutcome (ended order status code observationId) = [] := fillsOfOutcome_none

/-- Built fills and their remainder are the remaining quantity; a final order gets none. -/
structure Balanced (order : PendingOrder) (built : BuiltFills) : Prop where
  sum : built.remainder + (built.fills.map Fill.quantity).sum = order.remainingQuantity
  final : built.reason = some "ORDER_ALREADY_FINAL" → built.fills = []

theorem balanced_nil (order : PendingOrder) (reason : Option String) :
    Balanced order ⟨[], order.remainingQuantity, reason⟩ where
  sum := by simp
  final := fun _ => rfl

theorem buildFills_balanced : Balanced order (buildFills order o c risk now liquidity journal) := by
  unfold buildFills
  dsimp only
  split
  · exact balanced_nil _ _
  · split
    · exact balanced_nil _ _
    · split
      · exact balanced_nil _ _
      · split
        · exact balanced_nil _ _
        · constructor
          · rw [quantity_fills]
            ring
          · intro h
            split at h
            · split at h
              · simp at h
              · split at h <;> simp at h
            · cases h

theorem settle_fills {built : BuiltFills} {observationId : String} (h : Balanced order built)
    (hsum : order.filledQuantity + order.remainingQuantity ≤ order.requestedQuantity) :
    fillsOfOutcome (settle order observationId built) = built.fills := by
  have hbalance := h.sum
  unfold settle
  split
  · next hfinal =>
    rw [h.final hfinal]
    exact fillsOfOutcome_waiting
  · split
    · next hnone =>
      rw [hnone]
      split
      · exact fillsOfOutcome_waiting
      · exact fillsOfOutcome_ended
    · split
      · next hall =>
        apply fillsOfOutcome_outcome
        linarith
      · apply fillsOfOutcome_outcome
        linarith

/-- Only the observation that the order is filled from meets the risk snapshot and the liquidity. -/
theorem execute_fills (hcheck : order.check = .ok ()) :
    fillsOfOutcome (executePendingOrder order receipt fence observations c risk clock now liquidity journal) =
      match fillQuote order receipt fence observations c clock now with
      | none => []
      | some o => fillsOfTakes order o c now (gainedTakes order o c risk liquidity journal) := by
  obtain ⟨-, -, hsum⟩ := PendingOrder.check_ok hcheck
  unfold fillQuote
  by_cases hok : Fillable order receipt clock now
  · rw [if_pos hok]
    obtain ⟨hreceipt, hclock, hlive, hexpires, hcommitted, haccepted, hbefore, hevidence⟩ := hok
    unfold executePendingOrder
    rw [if_neg (not_not.mpr hreceipt), if_neg (not_not.mpr hclock), if_neg (by simp [hlive]),
      if_neg (not_le.mpr hexpires), if_neg (by simp [hcommitted, haccepted, hbefore]), if_neg (not_not.mpr hevidence)]
    cases fence with
    | none => exact fillsOfOutcome_waiting
    | some f =>
      dsimp only
      by_cases hf : f.receiptId = order.receiptId
      · rw [if_neg (not_not.mpr hf)]
        by_cases htrust : f.clockQuality.trusted
        · rw [if_neg (not_not.mpr htrust), if_pos ⟨hf, htrust⟩]
          unfold acceptedQuote
          cases hselect : selectObservation order receipt f observations clock with
          | error e => rfl
          | ok selected =>
            obtain ⟨quote, codes⟩ := selected
            cases quote with
            | none => exact fillsOfOutcome_waiting
            | some o =>
              cases codes with
              | cons code codes => exact fillsOfOutcome_waiting
              | nil =>
                cases hmarket : marketRejection o c now with
                | none =>
                  have hfills := @buildFills_eq order o c risk liquidity journal now
                  have hsettle := @settle_fills order _ o.observationId
                    (@buildFills_balanced order c risk now liquidity journal o) hsum
                  rw [hfills] at hsettle
                  simpa [bind, Except.bind, hmarket] using hsettle
                | some rejection =>
                  by_cases hrange : rejection = "VALUE_OUT_OF_RANGE"
                  · simp [bind, Except.bind, hmarket, hrange, fillsOfOutcome]
                  · simpa [bind, Except.bind, hmarket, hrange] using fillsOfOutcome_waiting
        · rw [if_pos htrust, if_neg (fun h => htrust h.2)]
          exact fillsOfOutcome_ended
      · rw [if_pos hf, if_neg (fun h => hf h.1)]
        exact fillsOfOutcome_waiting
  · rw [if_neg hok]
    unfold executePendingOrder
    by_cases hreceipt : order.receiptId = receipt.receiptId
    · rw [if_neg (not_not.mpr hreceipt)]
      split
      · exact fillsOfOutcome_ended
      · next hclock =>
        split
        · exact fillsOfOutcome_waiting
        · next hlive =>
          split
          · exact fillsOfOutcome_ended
          · next hexpires =>
            split
            · exact fillsOfOutcome_waiting
            · next hcommitted =>
              split
              · exact fillsOfOutcome_ended
              · next hevidence =>
                simp only [not_or, not_not] at hclock hcommitted hevidence
                exact absurd ⟨hreceipt, hclock, by simpa using hlive, not_le.mp hexpires, hcommitted.1,
                  hcommitted.2.1, hcommitted.2.2, hevidence⟩ hok
    · rw [if_pos hreceipt]
      exact fillsOfOutcome_ended

end Execute

/-! ## What is gained at each level -/

def lotsAt (takes : List LevelTake) : List (Nat × ℚ) := takes.map fun t => (t.index, t.quantity)

/-- The takes have the prices of their levels. -/
def PricedBy (o : MarketObservation) (side : Side) (takes : List LevelTake) : Prop :=
  ∀ t ∈ takes, ((o.levels side)[t.index]?).map DepthLevel.price = some t.price

theorem gainedTakes_priced (order : PendingOrder) (o : MarketObservation) (c : InstrumentConstraints)
    (risk : RiskSnapshot) (liquidity : LiquidityTracker) (journal : List (String × Int)) :
    PricedBy o order.side (gainedTakes order o c risk liquidity journal) := by
  intro t ht
  unfold gainedTakes at ht
  split at ht
  · cases ht
  · obtain ⟨-, v, hv, hindex, hprice, -⟩ := freshTakes_allocation.level t ht
    obtain ⟨level, hlevel, hvprice, -⟩ := mem_availableLevels hv
    rw [← hindex, hlevel, Option.map_some, ← hvprice, hprice]

/-- Priced takes are known by their levels and quantities. -/
theorem eq_of_lotsAt {o : MarketObservation} {side : Side} {takes takes' : List LevelTake} (h : PricedBy o side takes)
    (h' : PricedBy o side takes') (he : lotsAt takes = lotsAt takes') : takes = takes' := by
  have hback : ∀ ts, PricedBy o side ts → ts = (lotsAt ts).map fun p =>
      ⟨p.1, (((o.levels side)[p.1]?).map DepthLevel.price).getD 0, p.2⟩ := by
    intro ts hts
    unfold lotsAt
    rw [map_map]
    conv_lhs => rw [← map_id ts]
    apply map_congr_left
    intro t ht
    simp only [Function.comp, hts t ht]
    rfl
  rw [hback takes h, hback takes' h', he]

theorem fillsOfTakes_eq_iff {order : PendingOrder} {o : MarketObservation} {c : InstrumentConstraints} {now : Instant}
    {takes takes' : List LevelTake} (h : PricedBy o order.side takes) (h' : PricedBy o order.side takes') :
    fillsOfTakes order o c now takes = fillsOfTakes order o c now takes' ↔ lotsAt takes = lotsAt takes' := by
  constructor
  · intro he
    have hlots : ∀ ts, (fillsOfTakes order o c now ts).map (fun f => (f.levelIndex.toNat, f.quantity)) = lotsAt ts := by
      intro ts
      unfold fillsOfTakes lotsAt
      rw [map_map]
      apply map_congr_left
      intro t _
      simp [takeFill]
    rw [← hlots takes, ← hlots takes', he]
  · intro he
    rw [eq_of_lotsAt h h' he]

/-! ## The gain at a level -/

section Gain

variable (order : PendingOrder) (o : MarketObservation) (c : InstrumentConstraints) (risk : RiskSnapshot)
  (liquidity : LiquidityTracker) (journal : List (String × Int))

/-- What every level has left of its share. -/
def offeredLevels : List LevelTake :=
  (o.levels order.side).zipIdx.map fun entry =>
    ⟨entry.2, entry.1.price, entry.1.size * c.participationRate - liquidity order.accountId o.observationId entry.2⟩

/-- The whole lots that the remaining quantity, the depth, the risk snapshot and the order limit allow. -/
def allowedLots : ℚ :=
  let levels := availableLevels o order.side c liquidity order.accountId
  targetQuantity order levels c (affordableQuantity order.side levels c risk)

/-- The whole lots of each level, as far as the levels before it leave of the allowed ones. -/
def levelShares : List LevelTake :=
  sharesOf c.lot (allowedLots order o c risk liquidity) (offeredLevels order o c liquidity)

/-- What is filled of a level: its share, unless that is stored already or all shares miss the minimum order. -/
def gainAt (i : Nat) : ℚ :=
  if MissesMinimum order c (levelShares order o c risk liquidity) ∨ (o.observationId, (i : Int)) ∈ journal then 0
  else (((levelShares order o c risk liquidity)[i]?).map LevelTake.quantity).getD 0

variable {order o c risk liquidity journal} {lot target : ℚ}

theorem availableLevels_eq : availableLevels o order.side c liquidity order.accountId =
    (offeredLevels order o c liquidity).filter fun v => 0 < v.quantity := by
  unfold availableLevels offeredLevels
  rw [filter_map, ← filterMap_eq_map, ← filterMap_eq_filter, filterMap_filterMap]
  congr 1
  funext entry
  by_cases h : entry.1.size * c.participationRate - liquidity order.accountId o.observationId entry.2 ≤ 0
  · simp [Option.guard, h, not_lt.mpr h]
  · simp [Option.guard, h, not_le.mp h]

/-- Exhausted levels have no share. -/
theorem boughtOf_filter (levels : List LevelTake) :
    boughtOf lot target (levels.filter fun v => 0 < v.quantity) = boughtOf lot target levels := by
  induction levels generalizing target with
  | nil => rfl
  | cons v levels ih =>
    by_cases hv : 0 < v.quantity
    · have hrest := @ih (target - v.wholeLots lot)
      unfold boughtOf at hrest ⊢
      rw [filter_cons_of_pos (by simpa using hv), sharesOf_cons, sharesOf_cons, filter_cons, filter_cons,
        hrest]
    · have hzero : v.wholeLots lot = 0 := by
        unfold LevelTake.wholeLots roundLotDown
        rw [if_pos (not_lt.mp hv)]
      have hrest := @ih target
      unfold boughtOf at hrest ⊢
      rw [filter_cons_of_neg (by simpa using hv), hrest, sharesOf_cons, hzero, sub_zero,
        filter_cons_of_neg (by simp)]

/-- Every share keeps the index of its level. -/
theorem levelShares_index {i : Nat} {t : LevelTake} (h : (levelShares order o c risk liquidity)[i]? = some t) :
    t.index = i := by
  unfold levelShares sharesOf offeredLevels at h
  rw [List.getElem?_mapIdx, List.getElem?_map, List.getElem?_zipIdx] at h
  cases hlevel : (o.levels order.side)[i]? with
  | none =>
    rw [hlevel] at h
    cases h
  | some level =>
    rw [hlevel] at h
    cases h
    simp

theorem levelShares_nonneg {t : LevelTake} (h : t ∈ levelShares order o c risk liquidity) : 0 ≤ t.quantity := by
  obtain ⟨i, hi, rfl⟩ := mem_mapIdx.mp h
  exact le_min (wholeLots_nonneg c.lot_pos _) (le_max_left _ _)

theorem wantedTakes_eq_filter : wantedTakes order o c risk liquidity =
    (levelShares order o c risk liquidity).filter fun t => 0 < t.quantity := by
  have hwanted : wantedTakes order o c risk liquidity = boughtOf c.lot (allowedLots order o c risk liquidity)
      (availableLevels o order.side c liquidity order.accountId) := rfl
  rw [hwanted, availableLevels_eq, boughtOf_filter]
  rfl

/-- Takes of nothing do not count. -/
theorem sum_filter_pos {takes : List LevelTake} (h : ∀ t ∈ takes, 0 ≤ t.quantity) (price : LevelTake → ℚ) :
    ((takes.filter fun t => 0 < t.quantity).map fun t => t.quantity * price t).sum =
      (takes.map fun t => t.quantity * price t).sum := by
  induction takes with
  | nil => rfl
  | cons t takes ih =>
    have hrest := ih (fun u hu => h u (mem_cons_of_mem _ hu))
    rw [filter_cons, map_cons, sum_cons]
    split
    · rw [map_cons, sum_cons, hrest]
    · next ht =>
      have hzero : t.quantity = 0 := le_antisymm (not_lt.mp (by simpa using ht)) (h t mem_cons_self)
      rw [hrest, hzero, zero_mul, zero_add]

theorem missesMinimum_wantedTakes : MissesMinimum order c (wantedTakes order o c risk liquidity) ↔
    MissesMinimum order c (levelShares order o c risk liquidity) := by
  have hsum := @sum_filter_pos (levelShares order o c risk liquidity) (fun t => levelShares_nonneg)
  have hquantity := hsum fun _ => 1
  simp only [mul_one] at hquantity
  rw [wantedTakes_eq_filter]
  unfold MissesMinimum totalQuantity takesValue
  rw [hquantity, hsum]

theorem mem_lotsAt {i : Nat} {q : ℚ} : (i, q) ∈ lotsAt (gainedTakes order o c risk liquidity journal) ↔
    0 < q ∧ gainAt order o c risk liquidity journal i = q := by
  unfold gainedTakes gainAt freshTakes
  by_cases hmiss : MissesMinimum order c (levelShares order o c risk liquidity)
  · rw [if_pos (missesMinimum_wantedTakes.mpr hmiss), if_pos (.inl hmiss)]
    constructor
    · intro h
      cases h
    · rintro ⟨hq, rfl⟩
      exact absurd hq (lt_irrefl 0)
  · rw [if_neg (fun h => hmiss (missesMinimum_wantedTakes.mp h)), wantedTakes_eq_filter]
    constructor
    · intro h
      obtain ⟨t, ht, he⟩ := mem_map.mp h
      cases he
      obtain ⟨ht, hjournal⟩ := mem_filter.mp ht
      obtain ⟨ht, hpos⟩ := mem_filter.mp ht
      obtain ⟨k, hk⟩ := mem_iff_getElem?.mp ht
      rw [levelShares_index hk] at hjournal ⊢
      rw [if_neg (not_or.mpr ⟨hmiss, by simpa using hjournal⟩), hk]
      exact ⟨by simpa using hpos, rfl⟩
    · rintro ⟨hq, he⟩
      split at he
      · rw [← he] at hq
        exact absurd hq (lt_irrefl 0)
      · next hfresh =>
        cases hshare : (levelShares order o c risk liquidity)[i]? with
        | none =>
          rw [hshare] at he
          rw [← he] at hq
          exact absurd hq (lt_irrefl 0)
        | some t =>
          rw [hshare] at he
          have he : t.quantity = q := he
          have hindex := levelShares_index hshare
          apply mem_map.mpr
          refine ⟨t, ?_, by rw [hindex, he]⟩
          apply mem_filter.mpr
          rw [hindex]
          refine ⟨mem_filter.mpr ⟨mem_of_getElem? hshare, by simpa [he] using hq⟩, ?_⟩
          simpa using (not_or.mp hfresh).2

theorem lotsAt_sorted : (lotsAt (gainedTakes order o c risk liquidity journal)).Pairwise fun p p' => p.1 < p'.1 := by
  have hsub : (gainedTakes order o c risk liquidity journal).Sublist (levelShares order o c risk liquidity) := by
    unfold gainedTakes freshTakes
    rw [wantedTakes_eq_filter]
    split
    · exact nil_sublist _
    · exact filter_sublist.trans filter_sublist
  have hsorted : (levelShares order o c risk liquidity).Pairwise fun t t' => t.index < t'.index := by
    rw [pairwise_iff_getElem]
    intro i j hi hj hij
    rw [levelShares_index (List.getElem?_eq_getElem hi), levelShares_index (List.getElem?_eq_getElem hj)]
    exact hij
  unfold lotsAt
  rw [pairwise_map]
  exact hsorted.sublist hsub

/-- The same is gained exactly when it is at every level. -/
theorem lotsAt_eq_iff {risk' : RiskSnapshot} {liquidity' : LiquidityTracker} {journal' : List (String × Int)} :
    lotsAt (gainedTakes order o c risk liquidity journal) = lotsAt (gainedTakes order o c risk' liquidity' journal') ↔
      ∀ i, gainAt order o c risk liquidity journal i = gainAt order o c risk' liquidity' journal' i := by
  have hnonneg : ∀ (r : RiskSnapshot) (used : LiquidityTracker) (j : List (String × Int)) (i : Nat),
      0 ≤ gainAt order o c r used j i := by
    intro r used j i
    unfold gainAt
    split
    · exact le_rfl
    · cases hshare : (levelShares order o c r used)[i]? with
      | none => exact le_rfl
      | some t => exact levelShares_nonneg (mem_of_getElem? hshare)
  constructor
  · intro h i
    by_cases hpos : 0 < gainAt order o c risk liquidity journal i
    · have hmem : (i, gainAt order o c risk liquidity journal i) ∈
          lotsAt (gainedTakes order o c risk liquidity journal) := mem_lotsAt.mpr ⟨hpos, rfl⟩
      rw [h] at hmem
      exact (mem_lotsAt.mp hmem).2.symm
    · by_cases hpos' : 0 < gainAt order o c risk' liquidity' journal' i
      · have hmem : (i, gainAt order o c risk' liquidity' journal' i) ∈
            lotsAt (gainedTakes order o c risk' liquidity' journal') := mem_lotsAt.mpr ⟨hpos', rfl⟩
        rw [← h] at hmem
        exact (mem_lotsAt.mp hmem).2
      · exact (le_antisymm (not_lt.mp hpos) (hnonneg _ _ _ _)).trans
          (le_antisymm (not_lt.mp hpos') (hnonneg _ _ _ _)).symm
  · intro h
    apply Pairwise.eq_of_mem_iff lotsAt_sorted lotsAt_sorted
    rintro ⟨i, q⟩
    rw [mem_lotsAt, mem_lotsAt, h i]

end Gain

/-! ## Two executions of a sell -/

section Pair

variable {sumText : List ℚ → ℚ} {x : Execution} {account' : AccountRow} {m m' : Manager} {l l' : Ledger}
  {clock clock' : Nat → Instant}

/-- What the account's sells took of a level. -/
def liquiditySold (l : Ledger) (accountId observationId : String) (levelIndex : Int) : ℚ :=
  l.fills.sum fun f =>
    if f.accountId = accountId ∧ f.quoteRef = observationId ∧ f.levelIndex = levelIndex ∧ f.side = .sell then f.quantity
    else 0

/-- The observation that the execution fills from. -/
def Execution.quote (x : Execution) (m : Manager) : Option MarketObservation :=
  fillQuote x.order (receiptStateOf x.receipt x.evidenceValid) x.fence x.observations x.constraints m.clockQuality x.now

def Execution.snapshot (x : Execution) (m : Manager) (l : Ledger) : RiskSnapshot :=
  headroomSnapshot (stateOf l x.account) m.riskPolicy (refPricesOf x.observations)
    (reservationForOrder l x.order.orderId)

/-- What the execution gains at a level of an observation. -/
def Execution.gain (x : Execution) (m : Manager) (l : Ledger) (o : MarketObservation) (i : Nat) : ℚ :=
  gainAt x.order o x.constraints (x.snapshot m l) (liquidityTracker l x.order.accountId x.observations)
    (filledKeys l x.order.orderId) i

/-- The same execution on another account row. -/
def Execution.on (x : Execution) (account' : AccountRow) : Execution := { x with account := account' }

/-- One sell, its observations and its inventory; the account's cash, its other positions and reservations, the limits
and the account's buys may differ. -/
structure SameExit (x : Execution) (account' : AccountRow) (m m' : Manager) (l l' : Ledger) : Prop where
  sell : x.order.side = .sell
  clock : m'.clockQuality = m.clockQuality
  account : account'.accountId = x.account.accountId
  reservation : reservationForOrder l' x.order.orderId = reservationForOrder l x.order.orderId
  journal : filledKeys l' x.order.orderId = filledKeys l x.order.orderId
  inventory : ((x.on account').snapshot m' l').inventoryAvailable = (x.snapshot m l).inventoryAvailable
  sold : ∀ observationId level, liquiditySold l' x.order.accountId observationId level =
    liquiditySold l x.order.accountId observationId level

/-- What `process_observations` reads before it computes: the order with its rows in the ledger it finds, and the rest
in the ledger that its fence leaves. -/
structure Execution.ReadIn (x : Execution) (m : Manager) (clock : Nat → Instant) (s l : Ledger) : Prop where
  loaded : loadOrder x.orderId x.evidenceValid s =
    .ok ⟨x.order, receiptStateOf x.receipt x.evidenceValid, reservationForOrder l x.order.orderId⟩
  fenced : establishFence x.order.receiptId m.clockQuality m.workerId (clock 0) s = .ok (l, x.fence)
  account : accountSnapshot x.order.accountId l = .ok (stateOf l x.account)

theorem holds_processObservations {s : Ledger} (hx : x.ReadIn m clock s l) : Job.Holds (fun _ => True) s
    (processObservations sumText m clock x.orderId x.observations x.constraints x.now x.evidenceValid)
    fun out _ => x.run m l = .ok out := by
  apply Job.holds_look
  intro loaded hloaded
  rw [hx.loaded] at hloaded
  cases hloaded
  apply Job.holds_txn_bind
  intro t fence hfence
  rw [hx.fenced] at hfence
  cases hfence
  refine ⟨trivial, ?_⟩
  apply Job.holds_look
  intro account haccount
  rw [hx.account] at haccount
  cases haccount
  apply Job.holds_read
  apply Job.holds_read
  apply Job.holds_ofExcept
  intro out hout
  have hrun : x.run m l = .ok out := hout
  split
  · apply Job.holds_txn_bind
    intro _ _ _
    exact ⟨trivial, Job.holds_pure hrun⟩
  · exact Job.holds_pure hrun

/-- Every run that returns has read an execution and returns what it computes. -/
theorem processObservations_ok {orderId : String} {observations : List MarketObservation} {c : InstrumentConstraints}
    {now : Instant} {evidenceValid : Bool} {s : Ledger} {out : ExecutionOutcome}
    (h : (processObservations sumText m clock orderId observations c now evidenceValid s).2 = .ok out) :
    ∃ (x : Execution) (l : Ledger), x.ReadIn m clock s l ∧ x.run m l = .ok out ∧ x.orderId = orderId ∧
      x.observations = observations ∧ x.constraints = c ∧ x.now = now ∧ x.evidenceValid = evidenceValid := by
  suffices hholds : Job.Holds (fun _ => True) s
      (processObservations sumText m clock orderId observations c now evidenceValid) fun out _ =>
        ∃ (x : Execution) (l : Ledger), x.ReadIn m clock s l ∧ x.run m l = .ok out ∧ x.orderId = orderId ∧
          x.observations = observations ∧ x.constraints = c ∧ x.now = now ∧ x.evidenceValid = evidenceValid from
    hholds.result out h
  apply Job.holds_look
  rintro ⟨order, receipt, reservation⟩ hloaded
  obtain ⟨-, hid, -, hreservation, row, -, -, hrow⟩ := loadOrder_ok hloaded
  dsimp only at hid hreservation hrow
  apply Job.holds_txn_bind
  intro t fence hfence
  refine ⟨trivial, ?_⟩
  apply Job.holds_look
  intro account haccount
  obtain ⟨arow, -, -, harow⟩ := accountSnapshot_ok haccount
  apply Job.holds_read
  apply Job.holds_read
  apply Job.holds_ofExcept
  intro out hout
  have hkept : reservationForOrder s order.orderId = reservationForOrder t order.orderId := by
    rcases (establishFence_ok hfence).1 with rfl | ⟨f, hf⟩
    · rfl
    · rw [hf.frame]
      rfl
  rw [← hid, hkept] at hreservation
  rw [hrow, hreservation] at hloaded
  rw [harow] at haccount
  rw [harow, hrow, hreservation] at hout
  obtain ⟨x, hx⟩ : ∃ x : Execution, x = ⟨orderId, observations, c, now, evidenceValid, order, row, fence, arow⟩ :=
    ⟨_, rfl⟩
  have hread : x.ReadIn m clock s t ∧ x.run m t = .ok out := by
    subst hx
    exact ⟨⟨hloaded, hfence, haccount⟩, hout⟩
  have hfound : ∃ (x : Execution) (l : Ledger), x.ReadIn m clock s l ∧ x.run m l = .ok out ∧ x.orderId = orderId ∧
      x.observations = observations ∧ x.constraints = c ∧ x.now = now ∧ x.evidenceValid = evidenceValid := by
    refine ⟨x, t, hread.1, hread.2, ?_⟩
    subst hx
    exact ⟨rfl, rfl, rfl, rfl, rfl⟩
  split
  · apply Job.holds_txn_bind
    intro _ _ _
    exact ⟨trivial, Job.holds_pure hfound⟩
  · exact Job.holds_pure hfound

theorem run_fills {s : Ledger} {out : ExecutionOutcome} (hx : x.ReadIn m clock s l) (hrun : x.run m l = .ok out) :
    out.fills = match x.quote m with
    | none => []
    | some o => fillsOfTakes x.order o x.constraints x.now (gainedTakes x.order o x.constraints (x.snapshot m l)
        (liquidityTracker l x.order.accountId x.observations) (filledKeys l x.order.orderId)) := by
  have hfills : fillsOfOutcome (x.run m l) = out.fills := by
    rw [hrun]
    rfl
  rw [← hfills]
  exact execute_fills (loadOrder_ok hx.loaded).2.2.1

end Pair

/-! ## Exits that are held back -/

/-- Five units are bought, and an exit of them is accepted. The last attempt comes first. -/
def heldFive : List Attempt :=
  let c := plainConstraints 1 0 pos_one nonneg_zero
  [plainAttempt (.submitCandidate { plainRequest "receipt-2" "group-2" 99 none c with side := .sell } .accept []),
   plainAttempt (.processObservations "paper_order:receipt-1" [plainQuote] c 20 true),
   plainAttempt (.submitCandidate (plainRequest "receipt-1" "group-1" 100 (some 5) c) .accept []),
   plainAttempt (.createAccount "account-1" "run-1" "scenario-1" 10000 "JPY")]

/-- The observation after `plainQuote`. -/
def laterQuote : MarketObservation :=
  { plainQuote with
    observationId := "quote-3"
    ingestSequence := 3
    quoteDigest := "cccccccccccccccccccccccccccccccccccccccccccccccccccccccccccccccc"
    ingestSequence_pos := by norm_num }

/-- The gross exposure is limited to what the five units are worth, and a little. -/
def tightManager : Manager :=
  { plainManager with
    riskPolicy := { plainManager.riskPolicy with maxGrossExposure := 500, maxGrossExposure_nonneg := by norm_num } }

/-- The fills of the exit of `heldFive`. -/
def exitRun (m : Manager) (o : MarketObservation) : Except Raised ExecutionOutcome :=
  (processObservations sqliteSum m (fun k => k + 1) "paper_order:receipt-2" [o]
    (plainConstraints 1 0 pos_one nonneg_zero) 20 true (ranAll sqliteSum heldFive)).2

def soldBy (m : Manager) (o : MarketObservation) : Option (List ℚ) :=
  (exitRun m o).toOption.map fun out => out.fills.map Fill.quantity

theorem exitRun_ok {m : Manager} {o : MarketObservation} {lots : List ℚ} (h : soldBy m o = some lots) :
    ∃ out, exitRun m o = .ok out ∧ out.fills.map Fill.quantity = lots := by
  unfold soldBy at h
  cases hrun : exitRun m o with
  | error e =>
    rw [hrun] at h
    cases h
  | ok out =>
    rw [hrun] at h
    exact ⟨out, rfl, by simpa [Except.toOption] using h⟩

/-- Two runs of one exit that differ in the gross limit only. -/
structure ExitPair (x : Execution) (l : Ledger) (out out' : ExecutionOutcome) : Prop where
  read : x.ReadIn plainManager (fun k => k + 1) (ranAll sqliteSum heldFive) l
  read' : (x.on x.account).ReadIn tightManager (fun k => k + 1) (ranAll sqliteSum heldFive) l
  same : SameExit x x.account plainManager tightManager l l
  run : (processObservations sqliteSum plainManager (fun k => k + 1) x.orderId x.observations x.constraints x.now
    x.evidenceValid (ranAll sqliteSum heldFive)).2 = .ok out
  run' : (processObservations sqliteSum tightManager (fun k => k + 1) x.orderId x.observations x.constraints x.now
    x.evidenceValid (ranAll sqliteSum heldFive)).2 = .ok out'

theorem exitPair {o : MarketObservation} {out out' : ExecutionOutcome} (h : exitRun plainManager o = .ok out)
    (h' : exitRun tightManager o = .ok out') : ∃ x l, ExitPair x l out out' := by
  obtain ⟨x, l, hread, -, hid, hobservations, hc, hnow, hvalid⟩ := processObservations_ok h
  have hside : ((loadOrder "paper_order:receipt-2" true (ranAll sqliteSum heldFive)).toOption.map
      fun loaded => loaded.order.side) = some .sell := by
    decide +kernel
  have hloaded := hread.loaded
  rw [hid, hvalid] at hloaded
  rw [hloaded] at hside
  have hsell : x.order.side = .sell := by simpa [Except.toOption] using hside
  unfold exitRun at h h'
  rw [← hid, ← hobservations, ← hc, ← hnow, ← hvalid] at h h'
  refine ⟨x, l, hread, ⟨hread.loaded, hread.fenced, hread.account⟩, ?_, h, h'⟩
  constructor
  · exact hsell
  · rfl
  · rfl
  · rfl
  · rfl
  · rfl
  · intro _ _
    rfl

/-- The limit on the gross exposure leaves nothing of the exit. -/
theorem heldFive_exitPair : ∃ x l out out', ExitPair x l out out' ∧ out.fills.map Fill.quantity = [5] ∧
    out'.fills = [] := by
  obtain ⟨out, hrun, hfills⟩ := @exitRun_ok plainManager laterQuote [5] (by decide +kernel)
  obtain ⟨out', hrun', hfills'⟩ := @exitRun_ok tightManager laterQuote [] (by decide +kernel)
  obtain ⟨x, l, hpair⟩ := exitPair hrun hrun'
  exact ⟨x, l, out, out', hpair, hfills, map_eq_nil_iff.mp hfills'⟩

/-- The exit gets nothing of the quote whose ask the buy took: the bid has the same level index. -/
example : soldBy plainManager plainQuote = some [] := by decide +kernel

end Docich.News
