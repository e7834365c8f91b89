import Docich.Ranked.Scan
import Docich.Rounding
import Mathlib.Data.List.Sort
import Mathlib.Data.Rat.Floor
import Mathlib.Tactic.Positivity

/-!
# The hindsight benchmark

One buy and one later sell of one symbol, on the closes of the day, with fee and slippage: `buildTheoreticalBenchmark`
looks for the best. A pass over the closes of a symbol pairs each with the least one before it (`symbolScan`); the
symbols are then compared, those with complete coverage by themselves.

* Times are the numbers they denote. Decimal arithmetic rounds every result, in whatever way its `Context` does.
* `asFloat`, `asDecimal` and `asInt` are the conversions of cached values; each fails on what the code skips.
-/

namespace Docich.Trading.Benchmark

open List Option Ranked

/-! ## Decimal arithmetic -/

/-- How the result of an operation is rounded. -/
structure Context where
  round : ℚ → ℚ
  mono : Monotone round
  zero : round 0 = 0
  one : round 1 = 1
  pos : ∀ x, 0 < x → 0 < round x

namespace Context

variable (c : Context)

def add (x y : ℚ) : ℚ := c.round (x + y)

def sub (x y : ℚ) : ℚ := c.round (x - y)

def mul (x y : ℚ) : ℚ := c.round (x * y)

def div (x y : ℚ) : ℚ := c.round (x / y)

variable {c} {x y : ℚ}

theorem round_nonneg (h : 0 ≤ x) : 0 ≤ c.round x := by
  have hmono := c.mono h
  rwa [c.zero] at hmono

theorem round_le_one (h : x ≤ 1) : c.round x ≤ 1 := by
  have hmono := c.mono h
  rwa [c.one] at hmono

end Context

def bps : ℚ := 10000

theorem bps_pos : 0 < bps := by
  unfold bps
  norm_num

/-- The cost factors of a buy and a sell. -/
structure Costs where
  buyFactor : ℚ
  sellFactor : ℚ
  buyFactor_pos : 0 < buyFactor
  sellFactor_nonneg : 0 ≤ sellFactor

/-- The factors, when fee and slippage are in their ranges. -/
def costsOf (c : Context) (fee slippage : Option ℚ) : Option Costs :=
  match fee, slippage with
  | some fee, some slippage =>
    if h : (0 ≤ fee ∧ fee < 1) ∧ 0 ≤ slippage ∧ slippage < bps then
      some
        { buyFactor := c.mul (c.add 1 (c.div slippage bps)) (c.add 1 fee)
          sellFactor := c.mul (c.sub 1 (c.div slippage bps)) (c.sub 1 fee)
          buyFactor_pos := by
            have hdiv : 0 ≤ c.div slippage bps := Context.round_nonneg (div_nonneg h.2.1 bps_pos.le)
            have hslip : 0 < c.add 1 (c.div slippage bps) := c.pos _ (by positivity)
            have hfee : 0 < c.add 1 fee := c.pos _ (by linarith [h.1.1])
            exact c.pos _ (mul_pos hslip hfee)
          sellFactor_nonneg := by
            have hdiv : c.div slippage bps ≤ 1 := Context.round_le_one ((div_le_one bps_pos).mpr h.2.2.le)
            have hslip : 0 ≤ c.sub 1 (c.div slippage bps) := Context.round_nonneg (sub_nonneg.mpr hdiv)
            have hfee : 0 ≤ c.sub 1 fee := Context.round_nonneg (sub_nonneg.mpr h.1.2.le)
            exact Context.round_nonneg (mul_nonneg hslip hfee) }
    else none
  | _, _ => none

/-! ## The closes of a day -/

def day : ℚ := 86400

/-- The midnight before `now`, nine hours ahead of the epoch's; the clock is read in whole microseconds. -/
def dayStartEpoch (now : ℚ) : ℚ := ⌊(roundEven (now * 1000000) / 1000000 + 32400) / day⌋ * day - 32400

structure Point where
  timestamp : ℚ
  close : ℚ
  close_pos : 0 < close

/-- A cached row; a mapping has its two values, missing ones included. -/
inductive HistoryRow (V : Type)
  | mapping (timestamp close : V)
  | sequence (items : List V)
  | other

structure CacheEntry (V : Type) where
  timeframe : Option V
  history : List (HistoryRow V)

def timeframeSeconds : Int := 300

section Reading

variable {V : Type} (asFloat asDecimal : V → Option ℚ) (asInt : V → Option Int)

def pointOf (timestamp close : V) : Option Point := do
  let t ← asFloat timestamp
  let p ← asDecimal close
  if h : 0 < p then some ⟨t, p, h⟩ else none

def HistoryRow.point : HistoryRow V → Option Point
  | .mapping timestamp close => pointOf asFloat asDecimal timestamp close
  | .sequence (timestamp :: close :: _) => pointOf asFloat asDecimal timestamp close
  | .sequence _ => none
  | .other => none

/-- A point replaces the one of its second. -/
def setPoint (p : Point) : List Point → List Point
  | [] => [p]
  | q :: points =>
    if roundEven q.timestamp = roundEven p.timestamp then p :: points else q :: setPoint p points

def historyPoints (entry : CacheEntry V) : List Point :=
  let points := entry.history.filterMap (HistoryRow.point asFloat asDecimal)
  (points.foldl (fun stored p => setPoint p stored) []).insertionSort fun p q => p.timestamp ≤ q.timestamp

def CacheEntry.timeframeS (entry : CacheEntry V) : Option Int :=
  match entry.timeframe with
  | none => some timeframeSeconds
  | some v => asInt v

/-- The part of a day that is over. -/
structure Span where
  start : ℚ
  target : ℚ

def spanOf (now : ℚ) : Span := ⟨dayStartEpoch now, min now (dayStartEpoch now + day)⟩

def Span.holds (s : Span) (p : Point) : Bool := s.start ≤ p.timestamp && p.timestamp ≤ s.target + 1

/-- The points of the span, in the order of their times. -/
def inDay (s : Span) (entry : CacheEntry V) : List Point := (historyPoints asFloat asDecimal entry).filter s.holds

end Reading

/-! ## One symbol -/

structure RoundTrip where
  returnFraction : ℚ
  entry : Point
  exit : Point

/-- The return of a buy at one close and a sell at another. -/
def returnOf (c : Context) (costs : Costs) (entry exit : Point) : ℚ :=
  c.sub (c.div (c.mul exit.close costs.sellFactor) (c.mul entry.close costs.buyFactor)) 1

def tripOf (c : Context) (costs : Costs) (entry exit : Point) : RoundTrip := ⟨returnOf c costs entry exit, entry, exit⟩

structure SymbolScan where
  minimum : Option Point
  symbolBest : Option RoundTrip

def SymbolScan.next (c : Context) (costs : Costs) (s : SymbolScan) (p : Point) : SymbolScan where
  symbolBest :=
    match s.minimum with
    | none => s.symbolBest
    | some entry =>
      match s.symbolBest with
      | none => some (tripOf c costs entry p)
      | some best =>
        if best.returnFraction < returnOf c costs entry p then some (tripOf c costs entry p) else some best
  minimum :=
    match s.minimum with
    | none => some p
    | some m => if p.close < m.close then some p else some m

def symbolScan (c : Context) (costs : Costs) (points : List Point) : SymbolScan :=
  points.foldl (SymbolScan.next c costs) ⟨none, none⟩

/-- The first and the last point are near the ends of the span, and no bar is missing between two points. -/
def coverageComplete (s : Span) (points : List Point) : Bool :=
  (points.head?.any fun p => p.timestamp ≤ s.start + timeframeSeconds * 2) &&
    (points.getLast?.any fun p => s.target - timeframeSeconds * 2 ≤ p.timestamp) &&
    (points.zip points.tail).all fun p => p.2.timestamp - p.1.timestamp ≤ timeframeSeconds

def coverageRatio (s : Span) (points : List Point) : ℚ :=
  let first := (points.head?.map Point.timestamp).getD 0
  let last := (points.getLast?.map Point.timestamp).getD 0
  min 1 (max 0 (min s.target last - max s.start first) / max (timeframeSeconds : ℚ) (s.target - s.start))

structure SymbolBest extends RoundTrip where
  symbol : String
  coverageComplete : Bool
  coverageRatio : ℚ
  bars : Nat

def symbolBest (c : Context) (costs : Costs) (s : Span) (symbol : String) (points : List Point) : Option SymbolBest :=
  (symbolScan c costs points).symbolBest.map fun trip =>
    { trip with symbol := symbol, coverageComplete := coverageComplete s points,
                coverageRatio := coverageRatio s points, bars := points.length }

/-! ## All symbols -/

structure Seen where
  best : Option SymbolBest
  bestComplete : Option SymbolBest
  observedBars : Nat
  observedSymbols : Nat
  historySymbols : Nat

/-- The greater return; the older symbol stays when it is as good. -/
def greater (best : Option SymbolBest) (b : SymbolBest) : Option SymbolBest :=
  match best with
  | none => some b
  | some old => if old.returnFraction < b.returnFraction then some b else some old

section Visit

variable {V : Type} (asFloat asDecimal : V → Option ℚ) (asInt : V → Option Int) (c : Context) (costs : Costs)
  (span : Span)

def Seen.next (s : Seen) (item : String × CacheEntry V) : Seen :=
  if item.2.timeframeS asInt = some timeframeSeconds then
    let points := inDay asFloat asDecimal span item.2
    let s := if points ≠ [] then { s with historySymbols := s.historySymbols + 1 } else s
    if points.length < 2 then s
    else
      let s := { s with observedSymbols := s.observedSymbols + 1, observedBars := s.observedBars + points.length }
      match symbolBest c costs span item.1 points with
      | none => s
      | some b =>
        { s with best := greater s.best b
                 bestComplete := if b.coverageComplete then greater s.bestComplete b else s.bestComplete }
  else s

/-- The entries in the order of their symbols. -/
def seen (cache : List (String × CacheEntry V)) : Seen :=
  (cache.insertionSort fun x y => x.1 ≤ y.1).foldl (Seen.next asFloat asDecimal asInt c costs span)
    ⟨none, none, 0, 0, 0⟩

end Visit

structure Ready where
  takerFeeBps : ℚ
  slippageBps : ℚ
  theoreticalPnl : ℚ
  theoreticalReturnPct : ℚ
  actual : Option ℚ
  gap : Option ℚ
  captureRatePct : Option ℚ
  best : SymbolBest
  observedBars : Nat
  observedSymbols : Nat

/-- The result: unavailable for a reason, or the best round trip; it is partial without complete coverage. -/
inductive Result
  | unavailable (actual : Option ℚ) (reason : String)
  | ready (r : Ready)

def Ready.status (r : Ready) : String := if r.best.coverageComplete then "ready" else "partial"

def readyOf (c : Context) (capital fee slippage : ℚ) (actual : Option ℚ) (s : Seen) (best : SymbolBest) : Ready :=
  let returnFraction := max 0 best.returnFraction
  let pnl := c.mul capital returnFraction
  { takerFeeBps := c.mul fee bps
    slippageBps := slippage
    theoreticalPnl := pnl
    theoreticalReturnPct := c.mul returnFraction 100
    actual := actual
    gap := actual.map fun a => c.sub pnl a
    captureRatePct := if 0 < pnl then actual.map fun a => c.mul (c.div a pnl) 100 else none
    best := best
    observedBars := s.observedBars
    observedSymbols := s.observedSymbols }

/-- The benchmark of the day of `now`; without a configured path there is no cache, and a file that cannot be read is
an empty one. -/
def buildTheoreticalBenchmark {V : Type} (asFloat asDecimal : V → Option ℚ) (asInt : V → Option Int) (c : Context)
    (cache : Option (List (String × CacheEntry V))) (capital actual : Option ℚ) (now : ℚ) (fee slippage : Option ℚ) :
    Result :=
  match cache, capital.filter (0 < ·), costsOf c fee slippage with
  | none, _, _ => .unavailable actual "history_not_configured"
  | _, none, _ => .unavailable actual "capital_unavailable"
  | _, _, none => .unavailable actual "execution_cost_unavailable"
  | some [], _, _ => .unavailable actual "intraday_history_unavailable"
  | some cache, some capital, some costs =>
    let s := seen asFloat asDecimal asInt c costs (spanOf now) cache
    match s.bestComplete <|> s.best with
    | none =>
      .unavailable actual
        (if s.historySymbols = 0 then "intraday_history_unavailable" else "intraday_history_too_short")
    | some best => .ready (readyOf c capital (fee.getD 0) (slippage.getD 0) actual s best)

/-! ## The pass over the closes -/

section Pass

variable {c : Context} {costs : Costs}

/-- A greater entry price makes the return no greater. -/
theorem returnOf_anti {x y : Point} (z : Point) (h : x.close ≤ y.close) :
    returnOf c costs y z ≤ returnOf c costs x z := by
  have hcost : c.mul x.close costs.buyFactor ≤ c.mul y.close costs.buyFactor :=
    c.mono (mul_le_mul_of_nonneg_right h costs.buyFactor_pos.le)
  have hpos : 0 < c.mul x.close costs.buyFactor := c.pos _ (mul_pos x.close_pos costs.buyFactor_pos)
  have hgain : 0 ≤ c.mul z.close costs.sellFactor :=
    Context.round_nonneg (mul_nonneg z.close_pos.le costs.sellFactor_nonneg)
  apply c.mono
  apply sub_le_sub_right
  apply c.mono
  exact div_le_div_of_nonneg_left hgain hpos hcost

/-- The pass is the general one, by the close and the return. -/
theorem symbolScan_eq (points : List Point) :
    (symbolScan c costs points).minimum = (Ranked.scan Point.close (returnOf c costs) points).least ∧
      (symbolScan c costs points).symbolBest =
        (Ranked.scan Point.close (returnOf c costs) points).best.map fun b => tripOf c costs b.1 b.2 := by
  induction points using List.reverseRecOn with
  | nil => exact ⟨rfl, rfl⟩
  | append_singleton points p ih =>
    obtain ⟨hleast, hbest⟩ := ih
    have hscan : symbolScan c costs (points ++ [p]) = (symbolScan c costs points).next c costs p :=
      foldl_concat ..
    rw [hscan, scan_concat]
    unfold SymbolScan.next Ranked.Scan.next
    rw [hleast, hbest]
    constructor
    · cases (Ranked.scan Point.close (returnOf c costs) points).least with
      | none => rfl
      | some m =>
        by_cases h : p.close < m.close
        · simp [h]
        · simp [h]
    · cases (Ranked.scan Point.close (returnOf c costs) points).least with
      | none => rfl
      | some m =>
        cases (Ranked.scan Point.close (returnOf c costs) points).best with
        | none => rfl
        | some b =>
          simp only [map_some, Ranked.better]
          by_cases h : returnOf c costs b.1 b.2 < returnOf c costs m p
          · simp [h, tripOf]
          · simp [h, tripOf]

/-- The returns of all round trips in a list of closes. -/
def returns (c : Context) (costs : Costs) (points : List Point) : Set ℚ :=
  {x | ∃ p q, [p, q].Sublist points ∧ x = returnOf c costs p q}

/-- A round trip of the closes, with its own return, that no other one beats. -/
structure BestOf (c : Context) (costs : Costs) (points : List Point) (t : RoundTrip) : Prop where
  pair : [t.entry, t.exit].Sublist points
  own : t.returnFraction = returnOf c costs t.entry t.exit
  greatest : IsGreatest (returns c costs points) t.returnFraction

theorem symbolScan_none (points : List Point) : (symbolScan c costs points).symbolBest = none ↔ points.length < 2 := by
  rw [(symbolScan_eq points).2, map_eq_none_iff, scan_best_none]

theorem symbolScan_best {points : List Point} {t : RoundTrip} (h : (symbolScan c costs points).symbolBest = some t) :
    BestOf c costs points t := by
  rw [(symbolScan_eq points).2] at h
  obtain ⟨b, hb, rfl⟩ := map_eq_some_iff.mp h
  have hbest : Ranked.BestPair (returnOf c costs) points b := by
    apply best_scan ?_ points b hb
    exact fun x y z hxy => returnOf_anti z hxy
  obtain ⟨hpair, hmax⟩ := hbest
  constructor
  · exact hpair
  · rfl
  · constructor
    · exact ⟨b.1, b.2, hpair, rfl⟩
    · rintro x ⟨p, q, hpq, rfl⟩
      exact hmax p q hpq

end Pass

/-! ## The choice of the symbol -/

section Choice

variable {V : Type} {asFloat asDecimal : V → Option ℚ} {asInt : V → Option Int} {c : Context} {costs : Costs}
  {span : Span}

/-- The best of one cached symbol, if it has the right bars and at least two of them. -/
def bestOfEntry (asFloat asDecimal : V → Option ℚ) (asInt : V → Option Int) (c : Context) (costs : Costs) (span : Span)
    (item : String × CacheEntry V) : Option SymbolBest :=
  if item.2.timeframeS asInt = some timeframeSeconds then
    symbolBest c costs span item.1 (inDay asFloat asDecimal span item.2)
  else none

variable {symbol : String} {points : List Point} {b : SymbolBest}

theorem symbolBest_none :
    symbolBest c costs span symbol points = none ↔ points.length < 2 := by
  unfold symbolBest
  rw [map_eq_none_iff, symbolScan_none]

theorem symbolBest_some (h : symbolBest c costs span symbol points = some b) :
    b.symbol = symbol ∧ b.coverageComplete = coverageComplete span points ∧ BestOf c costs points b.toRoundTrip := by
  obtain ⟨t, ht, rfl⟩ := map_eq_some_iff.mp h
  exact ⟨rfl, rfl, symbolScan_best ht⟩

/-- What a symbol adds to the two choices. -/
theorem seen_next (s : Seen) (item : String × CacheEntry V) :
    (Seen.next asFloat asDecimal asInt c costs span s item).best =
        (match bestOfEntry asFloat asDecimal asInt c costs span item with
        | none => s.best
        | some b => greater s.best b) ∧
      (Seen.next asFloat asDecimal asInt c costs span s item).bestComplete =
        match (bestOfEntry asFloat asDecimal asInt c costs span item).filter SymbolBest.coverageComplete with
        | none => s.bestComplete
        | some b => greater s.bestComplete b := by
  unfold Seen.next bestOfEntry
  by_cases hframe : item.2.timeframeS asInt = some timeframeSeconds
  · simp only [hframe, if_true]
    by_cases hshort : (inDay asFloat asDecimal span item.2).length < 2
    · rw [symbolBest_none.mpr hshort]
      simp only [hshort, if_true]
      split <;> exact ⟨rfl, rfl⟩
    · simp only [hshort, if_false]
      cases hbest : symbolBest c costs span item.1 (inDay asFloat asDecimal span item.2) with
      | none => exact absurd (symbolBest_none.mp hbest) hshort
      | some b =>
        cases hb : b.coverageComplete <;> simp [Option.filter, hb] <;> split <;> exact ⟨rfl, rfl⟩
  · simp [hframe]

/-- The bests of the cached symbols, in the order of the symbols. -/
def bests (asFloat asDecimal : V → Option ℚ) (asInt : V → Option Int) (c : Context) (costs : Costs) (span : Span)
    (cache : List (String × CacheEntry V)) : List SymbolBest :=
  (cache.insertionSort fun x y => x.1 ≤ y.1).filterMap (bestOfEntry asFloat asDecimal asInt c costs span)

theorem argmax_greater (l : List SymbolBest) (b : SymbolBest) :
    (l ++ [b]).argmax (fun b => b.returnFraction) = greater (l.argmax fun b => b.returnFraction) b := by
  rw [argmax_concat]
  cases l.argmax fun b => b.returnFraction <;> rfl

theorem le_of_argmax {l : List SymbolBest} {m : SymbolBest} (hb : b ∈ l)
    (hm : m ∈ l.argmax fun b => b.returnFraction) : b.returnFraction ≤ m.returnFraction := by
  have hle := le_of_mem_argmax hb hm
  exact hle

/-- The two choices are the first greatest of all bests and of the complete ones. -/
theorem seen_eq_argmax (cache : List (String × CacheEntry V)) :
    (seen asFloat asDecimal asInt c costs span cache).best =
        (bests asFloat asDecimal asInt c costs span cache).argmax (fun b => b.returnFraction) ∧
      (seen asFloat asDecimal asInt c costs span cache).bestComplete =
        ((bests asFloat asDecimal asInt c costs span cache).filter SymbolBest.coverageComplete).argmax
          fun b => b.returnFraction := by
  unfold seen bests
  induction cache.insertionSort (fun x y => x.1 ≤ y.1) using List.reverseRecOn with
  | nil => exact ⟨rfl, rfl⟩
  | append_singleton items item ih =>
    obtain ⟨hbest, hcomplete⟩ := ih
    obtain ⟨hnext, hnext'⟩ := @seen_next V asFloat asDecimal asInt c costs span
      (items.foldl (Seen.next asFloat asDecimal asInt c costs span) ⟨none, none, 0, 0, 0⟩) item
    rw [foldl_concat, hnext, hnext', hbest, hcomplete, filterMap_append]
    cases hitem : bestOfEntry asFloat asDecimal asInt c costs span item with
    | none => simp [hitem]
    | some b =>
      have hone : List.filterMap (bestOfEntry asFloat asDecimal asInt c costs span) [item] = [b] := by simp [hitem]
      rw [hone, filter_append]
      constructor
      · exact (argmax_greater _ b).symm
      · cases hb : b.coverageComplete with
        | false => simp [Option.filter, hb]
        | true => simpa [Option.filter, hb] using (argmax_greater _ b).symm

/-- A cached symbol with its best. -/
def Cached (asFloat asDecimal : V → Option ℚ) (asInt : V → Option Int) (c : Context) (costs : Costs) (span : Span)
    (cache : List (String × CacheEntry V)) (b : SymbolBest) : Prop :=
  ∃ item ∈ cache, bestOfEntry asFloat asDecimal asInt c costs span item = some b

theorem mem_bests {cache : List (String × CacheEntry V)} :
    b ∈ bests asFloat asDecimal asInt c costs span cache ↔ Cached asFloat asDecimal asInt c costs span cache b := by
  unfold bests Cached
  simp only [mem_filterMap, mem_insertionSort]

end Choice

/-! ## The result -/

section Result

variable {V : Type} (asFloat asDecimal : V → Option ℚ) (asInt : V → Option Int) (c : Context)

/-- What the benchmark reports of the cached symbols: a greatest one of those with complete coverage, and without any of
them a greatest one of all. -/
structure Reported (costs : Costs) (span : Span) (cache : List (String × CacheEntry V)) (best : SymbolBest) : Prop where
  cached : Cached asFloat asDecimal asInt c costs span cache best
  complete : (∃ b, Cached asFloat asDecimal asInt c costs span cache b ∧ b.coverageComplete) →
    best.coverageComplete ∧ ∀ b, Cached asFloat asDecimal asInt c costs span cache b → b.coverageComplete →
      b.returnFraction ≤ best.returnFraction
  incomplete : (¬ ∃ b, Cached asFloat asDecimal asInt c costs span cache b ∧ b.coverageComplete) →
    ∀ b, Cached asFloat asDecimal asInt c costs span cache b → b.returnFraction ≤ best.returnFraction

variable {asFloat asDecimal asInt c}
variable {costs : Costs} {span : Span} {cache : List (String × CacheEntry V)}

theorem reported_seen {best : SymbolBest}
    (h : ((seen asFloat asDecimal asInt c costs span cache).bestComplete <|>
      (seen asFloat asDecimal asInt c costs span cache).best) = some best) :
    Reported asFloat asDecimal asInt c costs span cache best := by
  obtain ⟨hall, hcomplete⟩ := @seen_eq_argmax V asFloat asDecimal asInt c costs span cache
  rw [hall, hcomplete] at h
  cases hc : ((bests asFloat asDecimal asInt c costs span cache).filter SymbolBest.coverageComplete).argmax
      fun b => b.returnFraction with
  | some b =>
    rw [hc] at h
    cases h
    obtain ⟨hmem, hb⟩ := mem_filter.mp (argmax_mem hc)
    refine ⟨mem_bests.mp hmem, fun _ => ⟨hb, ?_⟩, ?_⟩
    · intro b' hb' hcov
      exact le_of_argmax (mem_filter.mpr ⟨mem_bests.mpr hb', hcov⟩) hc
    · exact fun hnone => absurd ⟨best, mem_bests.mp hmem, hb⟩ hnone
  | none =>
    rw [hc] at h
    have hbest : best ∈ (bests asFloat asDecimal asInt c costs span cache).argmax fun b => b.returnFraction := h
    have hempty : (bests asFloat asDecimal asInt c costs span cache).filter SymbolBest.coverageComplete = [] :=
      argmax_eq_none.mp hc
    refine ⟨mem_bests.mp (argmax_mem hbest), ?_, ?_⟩
    · rintro ⟨b, hb, hcov⟩
      have hmem : b ∈ (bests asFloat asDecimal asInt c costs span cache).filter SymbolBest.coverageComplete :=
        mem_filter.mpr ⟨mem_bests.mpr hb, hcov⟩
      rw [hempty] at hmem
      cases hmem
    · exact fun _ b hb => le_of_argmax (mem_bests.mpr hb) hbest

theorem seen_none (h : ((seen asFloat asDecimal asInt c costs span cache).bestComplete <|>
      (seen asFloat asDecimal asInt c costs span cache).best) = none) (b : SymbolBest) :
    ¬ Cached asFloat asDecimal asInt c costs span cache b := by
  intro hb
  rw [orElse_eq_orElse, orElse_eq_or, or_eq_none_iff, (seen_eq_argmax cache).1] at h
  have hempty : bests asFloat asDecimal asInt c costs span cache = [] := argmax_eq_none.mp h.2
  have hmem : b ∈ bests asFloat asDecimal asInt c costs span cache := mem_bests.mpr hb
  rw [hempty] at hmem
  cases hmem

/-- The result is ready when the inputs are usable and a cached symbol has a round trip. -/
theorem ready_cases (cache : Option (List (String × CacheEntry V))) (capital actual : Option ℚ) (now : ℚ)
    (fee slippage : Option ℚ) :
    (∃ entries costs r, cache = some entries ∧ costsOf c fee slippage = some costs ∧
      buildTheoreticalBenchmark asFloat asDecimal asInt c cache capital actual now fee slippage = .ready r ∧
      Reported asFloat asDecimal asInt c costs (spanOf now) entries r.best) ∨
    ∃ reason, buildTheoreticalBenchmark asFloat asDecimal asInt c cache capital actual now fee slippage =
        .unavailable actual reason ∧
      ∀ entries k costs, cache = some entries → capital = some k → 0 < k → costsOf c fee slippage = some costs →
        ∀ b, ¬ Cached asFloat asDecimal asInt c costs (spanOf now) entries b := by
  unfold buildTheoreticalBenchmark
  split
  · exact .inr ⟨_, rfl, fun _ _ _ h => nomatch h⟩
  · next hcapital =>
    refine .inr ⟨_, rfl, fun _ k _ _ hk hpos => ?_⟩
    rw [hk, filter_some, if_pos (by simpa using hpos)] at hcapital
    cases hcapital
  · next hcosts _ =>
    refine .inr ⟨_, rfl, fun _ _ _ _ _ _ h => ?_⟩
    rw [hcosts] at h
    cases h
  · refine .inr ⟨_, rfl, fun entries _ _ h _ _ _ b hb => ?_⟩
    cases h
    obtain ⟨item, hitem, -⟩ := hb
    cases hitem
  · next entries k costs hne hcapital hcosts =>
    dsimp only
    split
    · next hnone =>
      refine .inr ⟨_, rfl, fun entries' _ costs' h _ _ hcosts' b => ?_⟩
      cases h
      rw [hcosts] at hcosts'
      cases hcosts'
      exact seen_none hnone b
    · next best hbest => exact .inl ⟨entries, costs, _, rfl, hcosts, rfl, reported_seen hbest⟩

end Result

/-- **The benchmark is optimal.** The best of a cached symbol has the greatest return of all pairs of its closes in the
day; the result is ready when there is one and the inputs are usable, and what it reports is greatest among the symbols
with complete coverage, or among all if none has it. -/
theorem benchmark_optimal {V : Type} (asFloat asDecimal : V → Option ℚ) (asInt : V → Option Int) (c : Context) :
    (∀ costs span (item : String × CacheEntry V),
      (bestOfEntry asFloat asDecimal asInt c costs span item = none ↔
        item.2.timeframeS asInt ≠ some timeframeSeconds ∨ (inDay asFloat asDecimal span item.2).length < 2) ∧
      ∀ b, bestOfEntry asFloat asDecimal asInt c costs span item = some b →
        b.symbol = item.1 ∧ b.coverageComplete = coverageComplete span (inDay asFloat asDecimal span item.2) ∧
          BestOf c costs (inDay asFloat asDecimal span item.2) b.toRoundTrip) ∧
    ∀ cache capital actual now fee slippage,
      (∃ entries costs r, cache = some entries ∧ costsOf c fee slippage = some costs ∧
        buildTheoreticalBenchmark asFloat asDecimal asInt c cache capital actual now fee slippage = .ready r ∧
        Reported asFloat asDecimal asInt c costs (spanOf now) entries r.best) ∨
      ∃ reason, buildTheoreticalBenchmark asFloat asDecimal asInt c cache capital actual now fee slippage =
          .unavailable actual reason ∧
        ∀ entries k costs, cache = some entries → capital = some k → 0 < k → costsOf c fee slippage = some costs →
          ∀ b, ¬ Cached asFloat asDecimal asInt c costs (spanOf now) entries b := by
  constructor
  · intro costs span item
    unfold bestOfEntry
    split
    · next hframe =>
      constructor
      · rw [symbolBest_none]
        simp [hframe]
      · exact fun b hb => symbolBest_some hb
    · next hframe => exact ⟨by simp [hframe], fun _ h => nomatch h⟩
  · exact ready_cases

/-! ## A falling day -/

/-- Decimals without rounding. -/
def Context.exact : Context := ⟨id, monotone_id, rfl, rfl, fun _ h => h⟩

/-- Two symbols whose closes only fall, without costs. -/
def fallingCache : List (String × CacheEntry ℚ) :=
  [("b", ⟨none, [.mapping 0 100, .mapping 300 90, .sequence [600, 80]]⟩),
   ("a", ⟨some 300, [.mapping 0 100, .mapping 300 50]⟩)]

def Result.best : Result → Option SymbolBest
  | .unavailable _ _ => none
  | .ready r => some r.best

/-- The least loss is reported. -/
theorem benchmark_optimal_falling : ∃ r costs, buildTheoreticalBenchmark some some (fun v => some ⌊v⌋) Context.exact
      (some fallingCache) (some 1000) none 900 (some 0) (some 0) = .ready r ∧
    r.best.symbol = "b" ∧ r.best.returnFraction = -(1 / 10) ∧
    Reported some some (fun v => some ⌊v⌋) Context.exact costs (spanOf 900) fallingCache r.best := by
  have hbest : (buildTheoreticalBenchmark some some (fun v => some ⌊v⌋) Context.exact (some fallingCache) (some 1000)
      none 900 (some 0) (some 0)).best.map (fun b => (b.symbol, b.returnFraction)) = some ("b", -(1 / 10)) := by
    decide +kernel
  obtain ⟨entries, costs, r, hentries, -, hr, hreported⟩ | ⟨reason, hreason, -⟩ :=
    (benchmark_optimal some some (fun v => some ⌊v⌋) Context.exact).2 (some fallingCache) (some 1000) none 900 (some 0)
      (some 0)
  · cases hentries
    rw [hr] at hbest
    obtain ⟨hsymbol, hreturn⟩ := Prod.mk.inj (Option.some.inj hbest)
    exact ⟨r, costs, hr, hsymbol, hreturn, hreported⟩
  · rw [hreason] at hbest
    cases hbest

end Docich.Trading.Benchmark
