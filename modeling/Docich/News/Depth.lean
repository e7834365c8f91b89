import Docich.News.Calls
import Docich.News.Moves

/-!
# One level of a book

What an account takes of a level of an observation, over all its orders, is at most the level's share, however often
and in whatever batches the observation is handed over (`level_taken_le`). Each execution offers an order no more than
the share less what the stored fills took, and stores its fills in the ledger that it read.
-/

namespace Docich.News

open Durable List Table

variable {sumText : List ℚ → ℚ} {l l' : Ledger}

/-- What a fill took of a level for the account. -/
def Fill.took (accountId observationId : String) (side : Side) (level : Int) (f : Fill) : ℚ :=
  if f.accountId = accountId ∧ f.quoteRef = observationId ∧ f.side = side ∧ f.levelIndex = level then f.quantity else 0

def taken (fills : Table Fill.fillId) (accountId observationId : String) (side : Side) (level : Int) : ℚ :=
  fills.sum (Fill.took accountId observationId side level)

/-- The call hands over observations of the market only, and takes at most the share `rate` of their levels. -/
def Attempt.Within (market : List MarketObservation) (rate : ℚ) (a : Attempt) : Prop :=
  match a.call with
  | .processObservations _ observations c _ _ => (∀ o ∈ observations, o ∈ market) ∧ c.participationRate ≤ rate
  | _ => True

/-! ## Stored quantities -/

def FillsPositive (fills : Table Fill.fillId) : Prop := ∀ f ∈ fills, 0 < f.quantity

theorem PostedAll.positive {order : PendingOrder} {b b' : Books} {fills : List Fill} (h : PostedAll order b fills b')
    (hb : FillsPositive b.fills) : FillsPositive b'.fills := by
  induction h with
  | nil b => exact hb
  | cons h hs ih =>
    apply ih
    intro f hf
    rcases (mem_insert? h.fills).mp hf with hf | rfl
    · exact hb f hf
    · exact h.quantity_pos

theorem Move.positive {a : Attempt} {s : Ledger} (h : Move sumText a s l l') (hl : FillsPositive l.fills) :
    FillsPositive l'.fills := by
  cases h with
  | quiet h =>
    rw [h.fills]
    exact hl
  | accepted _ h =>
    rw [h.begun.fills]
    exact hl
  | executed _ _ h =>
    rw [h.applied.fills]
    exact h.applied.posted.positive hl

variable (hl : FillsPositive l.fills)

include hl

/-- One side's part is at most what the tracker counts. -/
theorem taken_le_liquidityUsed (accountId observationId : String) (side : Side)
    (level : Int) : taken l.fills accountId observationId side level ≤ liquidityUsed l accountId observationId level := by
  apply Table.sum_le_sum
  intro f hf
  have hpos := (hl f hf).le
  by_cases hkey : f.accountId = accountId ∧ f.quoteRef = observationId ∧ f.levelIndex = level
  · rw [if_pos hkey]
    unfold Fill.took
    split
    · exact le_rfl
    · exact hpos
  · rw [if_neg hkey]
    unfold Fill.took
    rw [if_neg]
    rintro ⟨h1, h2, -, h4⟩
    exact hkey ⟨h1, h2, h4⟩

theorem liquidityUsed_nonneg (accountId observationId : String) (level : Int) :
    0 ≤ liquidityUsed l accountId observationId level := by
  apply Table.sum_nonneg
  intro f hf
  split
  · exact (hl f hf).le
  · exact le_rfl

/-- An observation that is handed over counts at least once. -/
theorem liquidityUsed_le_tracker {observations : List MarketObservation}
    {o : MarketObservation} (ho : o ∈ observations) (accountId : String) (level : Int) :
    liquidityUsed l accountId o.observationId level ≤
      liquidityTracker l accountId observations accountId o.observationId level := by
  unfold liquidityTracker
  rw [if_pos rfl]
  have hmem : o ∈ observations.filter fun x => x.observationId = o.observationId :=
    mem_filter.mpr ⟨ho, by simp⟩
  have hone : (1 : ℚ) ≤ (observations.filter fun x => x.observationId = o.observationId).length := by
    exact_mod_cast length_pos_of_mem hmem
  exact le_mul_of_one_le_left (liquidityUsed_nonneg hl accountId o.observationId level) hone

omit hl

/-! ## The share of a level -/

/-- No level of the market is taken beyond its share. -/
def WithinShares (market : List MarketObservation) (rate : ℚ) (l : Ledger) : Prop :=
  ∀ accountId, ∀ o ∈ market, ∀ side (i : Nat) level, (o.levels side)[i]? = some level →
    taken l.fills accountId o.observationId side i ≤ level.size * rate

section Executed

variable {a : Attempt} {x : Execution} {out : ExecutionOutcome} {now : Instant} {b : Books} {added : ℚ}
  {market : List MarketObservation} {rate : ℚ}

include hl in
/-- A take is within what the stored fills left of the share. -/
theorem Executed.take_le {f : Fence} {o : MarketObservation}
    (hfrom : x.FilledFrom a.manager l out f o) {take : LevelTake} (ht : take ∈ x.takes a.manager l o) :
    0 < take.quantity ∧ ∃ level, (o.levels x.order.side)[take.index]? = some level ∧
      take.quantity ≤ level.size * x.constraints.participationRate -
        taken l.fills x.order.accountId o.observationId x.order.side take.index := by
  obtain ⟨hpos, v, hv, hindex, -, hle⟩ := (plannedTakes_allocation _ _ _ _ _ _).level take ht
  obtain ⟨level, hlevel, -, hquantity⟩ := mem_availableLevels hv
  have hused : taken l.fills x.order.accountId o.observationId x.order.side v.index ≤
      liquidityTracker l x.order.accountId x.observations x.order.accountId o.observationId v.index :=
    le_trans (taken_le_liquidityUsed hl _ _ _ _) (liquidityUsed_le_tracker hl hfrom.selected.mem _ _)
  refine ⟨hpos, level, by rw [← hindex]; exact hlevel, ?_⟩
  rw [hquantity] at hle
  rw [hindex] at hused hle
  linarith

/-- The levels of the new fills are distinct. -/
theorem Executed.new_levels (h : Executed sumText a x out now b added l l') :
    ((newFills l out).map Fill.levelIndex).Nodup := by
  by_cases hne : out.fills = []
  · have hnew : newFills l out = [] := by
      unfold newFills
      rw [hne]
      rfl
    rw [hnew]
    exact nodup_nil
  · obtain ⟨f, o, hfrom⟩ := h.filledFrom hne
    obtain ⟨isPartial, hfills⟩ := hfrom.fills
    have hsub : ((newFills l out).map Fill.levelIndex).Sublist (out.fills.map Fill.levelIndex) :=
      filter_sublist.map _
    apply Nodup.sublist hsub
    rw [hfills, map_map]
    have hmap : ∀ takes : List LevelTake,
        takes.map (Fill.levelIndex ∘ takeFill x.order o x.constraints x.now isPartial) =
          (takes.map LevelTake.index).map (fun i : Nat => (i : Int)) := by
      intro takes
      rw [map_map]
      rfl
    rw [hmap]
    apply Nodup.map (fun _ _ he => Int.ofNat.inj he)
    exact Nodup.sublist (plannedTakes_allocation _ _ _ _ _ _).indices availableLevels_indices

theorem Executed.withinShares (h : Executed sumText a x out now b added l l')
    (hsame : ∀ o ∈ market, ∀ o' ∈ market, o.observationId = o'.observationId → o = o')
    (hwithin : a.Within market rate) (hl : FillsPositive l.fills) (hw : WithinShares market rate l) :
    WithinShares market rate l' := by
  have hcall : (∀ o ∈ x.observations, o ∈ market) ∧ x.constraints.participationRate ≤ rate := by
    unfold Attempt.Within at hwithin
    rw [h.called] at hwithin
    exact hwithin
  intro accountId o ho side i level hlevel
  have hold := hw accountId o ho side i level hlevel
  have hrows : taken l'.fills accountId o.observationId side i = taken l.fills accountId o.observationId side i +
      ((newFills l out).map fun f => (fillRow x.order f).took accountId o.observationId side i).sum := by
    unfold taken Table.sum
    rw [h.applied.rows, map_append, sum_append, map_map]
    rfl
  have hnew : ((newFills l out).map fun f => (fillRow x.order f).took accountId o.observationId side i).sum ≤
      level.size * rate - taken l.fills accountId o.observationId side i := by
    apply sum_map_le_of_nodup h.new_levels (i := (i : Int)) (by linarith)
    · intro fill hfill hindex
      unfold Fill.took
      split
      · next hkey =>
        obtain ⟨haccount, hquote, hside, -⟩ := hkey
        obtain ⟨f, o', hfrom, isPartial, take, ht, rfl⟩ := h.new_fill hfill
        have hoo : o' = o := hsame o' (hcall.1 o' hfrom.selected.mem) o ho hquote
        subst hoo
        obtain ⟨-, level', hlevel', hle⟩ := Executed.take_le hl hfrom ht
        have hi : take.index = i := Int.ofNat.inj hindex
        have haccount : x.order.accountId = accountId := haccount
        have hside : x.order.side = side := hside
        rw [hi, hside, haccount] at hle
        rw [hi, hside, hlevel] at hlevel'
        cases hlevel'
        have hshare : level.size * x.constraints.participationRate ≤ level.size * rate :=
          mul_le_mul_of_nonneg_left hcall.2 level.size_nonneg
        have hquantity : (fillRow x.order (takeFill x.order o' x.constraints x.now isPartial take)).quantity =
            take.quantity := rfl
        linarith
      · linarith
    · intro fill _ hindex
      unfold Fill.took
      rw [if_neg]
      rintro ⟨-, -, -, hkey⟩
      exact hindex hkey
  linarith

end Executed

/-- Lots of one unit, prices on whole units, half of a level's size, and the given tick and fee. -/
def plainConstraints (priceTick feeMin : ℚ) (ht : 0 < priceTick) (hf : 0 ≤ feeMin) : InstrumentConstraints where
  version := "constraints-1"
  lot := 1
  minQuantity := 1
  minNotional := 0
  priceTick := priceTick
  feeBps := 0
  feeMin := feeMin
  slippageBps := 0
  spreadLimitBps := 1000
  participationRate := 1 / 2
  maxQuoteAgeSeconds := 60
  volatilityLimitBps := none
  maxOrderNotional := none
  lot_pos := pos_one
  minQuantity_pos := pos_one
  minNotional_nonneg := nonneg_zero
  priceTick_pos := ht
  feeBps_nonneg := nonneg_zero
  feeMin_nonneg := hf
  slippageBps_nonneg := nonneg_zero
  spreadLimitBps_nonneg := by norm_num
  participationRate_pos := by norm_num
  participationRate_le := by norm_num
  maxQuoteAgeSeconds_nonneg := by norm_num

def plainManager : Manager where
  clockQuality := ⟨true, .ntp, 0, by norm_num⟩
  riskPolicy :=
    { version := "risk-1", maxPositions := 3, maxGrossExposure := 3000000, perAssetExposureCap := 1000000,
      dailyLossLimit := 20000, drawdownLimit := 50000, maxPositions_pos := by norm_num,
      maxGrossExposure_nonneg := by norm_num, perAssetExposureCap_nonneg := by norm_num,
      dailyLossLimit_nonneg := by norm_num, drawdownLimit_nonneg := by norm_num }
  policyVersion := "manager-1"
  executionDelayMs := 0
  workerId := "worker-1"
  executionDelayMs_nonneg := le_rfl

/-- A buy of `asset-1` for an event of its own, made on a quote of instant `0`. -/
def plainRequest (receiptId eventGroupId : String) (price : ℚ) (cap : Option ℚ) (c : InstrumentConstraints) :
    DecisionRequest where
  receiptId := receiptId
  runId := "run-1"
  scenarioId := "scenario-1"
  accountId := "account-1"
  decisionAt := 0
  managerSeenAt := 0
  inputCutoffSequence := 1
  signalRefs := ["signal-1"]
  marketRefs := ["quote-1"]
  decisionQuote := some ("source-1", "asset-1", 0, "aaaaaaaaaaaaaaaaaaaaaaaaaaaaaaaaaaaaaaaaaaaaaaaaaaaaaaaaaaaaaaaa")
  asset := "asset-1"
  side := .buy
  referencePrice := price
  expiresAt := 1000
  constraints := c
  eventGroupId := eventGroupId
  quantityCap := cap
  acceptReasonCode := "NEWS_PRICE_AGREE"
  supersedesReceiptId := none
  dailyPnl := none
  peakEquity := none
  currentEquity := none

/-- Ten units on either side, at `99` and `100`. -/
def plainQuote : MarketObservation where
  observationId := "quote-2"
  source := "source-1"
  asset := "asset-1"
  ingestSequence := 2
  marketEventAt := 10
  marketAvailableAt := 10
  availableAt := 10
  bid := 99
  ask := 100
  bidSize := 10
  askSize := 10
  sizeSemantics := .executable
  tradeable := true
  quoteDigest := "bbbbbbbbbbbbbbbbbbbbbbbbbbbbbbbbbbbbbbbbbbbbbbbbbbbbbbbbbbbbbbbb"
  instrumentConstraintsVersion := "constraints-1"
  bids := none
  asks := none
  sessionOpen := none
  volatilityBps := none
  ingestSequence_pos := by norm_num
  event_le_market := le_rfl
  market_le_available := le_rfl
  bid_pos := by norm_num
  bid_le_ask := by norm_num
  bidSize_nonneg := by norm_num
  askSize_nonneg := by norm_num

def plainAttempt (call : ManagerCall) : Attempt := ⟨plainManager, fun k => k + 1, call⟩

/-- Two orders for eight units each meet the same quote, which is handed over twice. The last attempt comes first. -/
def twoOrders : List Attempt :=
  let c := plainConstraints 1 0 pos_one nonneg_zero
  [plainAttempt (.processObservations "paper_order:receipt-2" [plainQuote] c 20 true),
   plainAttempt (.submitCandidate (plainRequest "receipt-2" "group-2" 100 (some 8) c) .accept []),
   plainAttempt (.processObservations "paper_order:receipt-1" [plainQuote] c 20 true),
   plainAttempt (.submitCandidate (plainRequest "receipt-1" "group-1" 100 (some 8) c) .accept []),
   plainAttempt (.createAccount "account-1" "run-1" "scenario-1" 10000 "JPY")]

end Docich.News
