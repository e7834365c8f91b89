import Docich.Durable.Table
import Docich.Trading.Data

/-!
# The triangular scan

Legs, the scan over every chain of three legs, and the name under which a cycle is kept.
-/

namespace Docich.Trading

open List

structure TopOfBook where
  bid : ℚ
  ask : ℚ
  asOf : ℚ
  bidAmount : ℚ
  askAmount : ℚ
  bid_pos : 0 < bid
  ask_pos : 0 < ask
  bid_le_ask : bid ≤ ask
  bidAmount_pos : 0 < bidAmount
  askAmount_pos : 0 < askAmount

structure ArbitrageLeg where
  symbol : String
  fromAsset : String
  toAsset : String
  side : Side
  price : ℚ
  feeRate : ℚ
  multiplier : ℚ
  maxInput : ℚ
  feeRateBase : ℚ

def ArbitrageLeg.feeRateQuote (leg : ArbitrageLeg) : ℚ := leg.feeRate

structure ArbitrageRoute where
  routeId : String
  startAsset : String
  legs : List ArbitrageLeg
  netEdgeBps : ℚ
  maxStartAmount : ℚ

/-- One conversion through a market: a sell when it starts from the base asset, a buy when from the quote asset. -/
def leg (market : MarketInfo) (book : TopOfBook) (fromAsset : String) : Option ArbitrageLeg :=
  match market.takerFeeRateQuote, market.takerFeeRateBase with
  | some quoteFee, some baseFee =>
    if fromAsset = market.base then
      some { symbol := market.symbol, fromAsset := market.base, toAsset := market.quote, side := .sell,
             price := book.bid, feeRate := quoteFee,
             multiplier := book.bid * (1 - quoteFee) / (1 + baseFee),
             maxInput := book.bidAmount * (1 + baseFee), feeRateBase := baseFee }
    else if fromAsset = market.quote then
      some { symbol := market.symbol, fromAsset := market.quote, toAsset := market.base, side := .buy,
             price := book.ask, feeRate := quoteFee,
             multiplier := (1 - baseFee) / (book.ask * (1 + quoteFee)),
             maxInput := book.askAmount * book.ask * (1 + quoteFee), feeRateBase := baseFee }
    else none
  | _, _ => none

/-! ## The name of a cycle -/

def rotations (parts : List String) : List (List String) :=
  (List.range parts.length).map fun i => parts.drop i ++ parts.take i

def legPart (leg : ArbitrageLeg) : String := leg.fromAsset ++ ">" ++ leg.toAsset ++ "@" ++ leg.symbol

/-- The smallest rotation of the parts, joined. -/
def canonicalCycle (legs : List ArbitrageLeg) : String :=
  "|".intercalate ((rotations (legs.map legPart)).min?.getD [])

theorem mem_rotations {parts parts' : List String} (hne : parts ≠ []) :
    parts' ∈ rotations parts ↔ parts ~r parts' := by
  have hpos : 0 < parts.length := length_pos_iff.mpr hne
  constructor
  · intro h
    obtain ⟨i, hi, rfl⟩ := mem_map.mp h
    rw [← rotate_eq_drop_append_take (mem_range.mp hi).le]
    exact ⟨i, rfl⟩
  · rintro ⟨n, rfl⟩
    have hlt : n % parts.length < parts.length := Nat.mod_lt _ hpos
    refine mem_map.mpr ⟨n % parts.length, mem_range.mpr hlt, ?_⟩
    rw [← rotate_eq_drop_append_take hlt.le, rotate_mod]

/-- Rotations of one list have one smallest rotation. -/
theorem min_rotations_congr {parts parts' : List String} (h : parts ~r parts') :
    (rotations parts).min? = (rotations parts').min? := by
  rcases eq_or_ne parts [] with rfl | hne
  · rw [isRotated_nil_iff'.mp h]
  have hne' : parts' ≠ [] := by
    rintro rfl
    exact hne (isRotated_nil_iff.mp h)
  have hmem : ∀ r, r ∈ rotations parts ↔ r ∈ rotations parts' := by
    intro r
    rw [mem_rotations hne, mem_rotations hne']
    exact ⟨fun hr => h.symm.trans hr, fun hr => h.trans hr⟩
  cases hmin : (rotations parts').min? with
  | none =>
    have hnil : rotations parts' = [] := List.min?_eq_none_iff.mp hmin
    have : parts' ∈ rotations parts' := (mem_rotations hne').mpr (List.IsRotated.refl _)
    rw [hnil] at this
    cases this
  | some m =>
    obtain ⟨hm, hle⟩ := List.min?_eq_some_iff.mp hmin
    exact List.min?_eq_some_iff.mpr ⟨(hmem m).mpr hm, fun r hr => hle r ((hmem r).mp hr)⟩

theorem canonicalCycle_congr {legs legs' : List ArbitrageLeg} (h : legs ~r legs') :
    canonicalCycle legs = canonicalCycle legs' := by
  unfold canonicalCycle
  rw [min_rotations_congr (h.map legPart)]

/-! ## The scan -/

/-- What a scan is given; the defaults are the source's. -/
structure Scan where
  markets : Durable.Table MarketInfo.symbol
  books : String → Option TopOfBook
  now : ℚ
  minNetEdgeBps : ℚ := 10
  maxBookAgeSeconds : ℚ := 2

namespace Scan

variable (s : Scan)

/-- The book through which a market can be used, if it can. -/
def usableBook (market : MarketInfo) : Option TopOfBook :=
  match s.books market.symbol with
  | none => none
  | some book =>
    if ¬market.marketOrderEnabled ∨ market.takerFeeRateQuote = none ∨ market.takerFeeRateBase = none then none
    else if s.now - book.asOf < -1 ∨ s.maxBookAgeSeconds < s.now - book.asOf then none
    else some book

def usable : List (MarketInfo × TopOfBook) :=
  s.markets.rows.filterMap fun market => (s.usableBook market).map fun book => (market, book)

/-- The legs that start from an asset, in the order in which the markets give them. -/
def outgoing (asset : String) : List ArbitrageLeg :=
  s.usable.flatMap fun (market, book) =>
    [market.base, market.quote].filterMap fun a => if a = asset then leg market book a else none

/-- The assets with an outgoing leg. -/
def assets : List String :=
  s.usable.flatMap fun (market, book) =>
    [market.base, market.quote].filter fun asset => (leg market book asset).isSome

def starts : List String := s.assets.dedup.mergeSort fun a b => decide (a ≤ b)

end Scan

def edgeBps (multiplier : ℚ) : ℚ := (multiplier - 1) * 10000

def routeOf (start : String) (first second third : ArbitrageLeg) : ArbitrageRoute where
  routeId := canonicalCycle [first, second, third]
  startAsset := start
  legs := [first, second, third]
  netEdgeBps := edgeBps (first.multiplier * second.multiplier * third.multiplier)
  maxStartAmount :=
    min (min first.maxInput (second.maxInput / first.multiplier))
      (third.maxInput / (first.multiplier * second.multiplier))

namespace Scan

variable (s : Scan)

/-- The routes that the three nested loops build, before one is kept for each name. -/
def candidates : List ArbitrageRoute :=
  s.starts.flatMap fun start =>
    (s.outgoing start).flatMap fun first =>
      (s.outgoing first.toAsset).flatMap fun second =>
        if second.symbol = first.symbol then []
        else (s.outgoing second.toAsset).filterMap fun third =>
          if third.symbol = first.symbol ∨ third.symbol = second.symbol ∨ third.toAsset ≠ start then none
          else if ¬[start, first.toAsset, second.toAsset].Nodup then none
          else if (routeOf start first second third).netEdgeBps < s.minNetEdgeBps then none
          else if (routeOf start first second third).maxStartAmount ≤ 0 then none
          else some (routeOf start first second third)

abbrev Found := Durable.Table ArbitrageRoute.routeId

/-- A route is kept when its name is new or its edge larger. -/
def keep (found : Found) (route : ArbitrageRoute) : Found :=
  match found.find? route.routeId with
  | none => found.upsert route
  | some previous => if previous.netEdgeBps < route.netEdgeBps then found.upsert route else found

def found : Found := s.candidates.foldl keep .empty

end Scan

/-- `scan_triangular_arbitrage`: the kept routes, the largest edge first. -/
def scanTriangularArbitrage (s : Scan) : List ArbitrageRoute :=
  s.found.rows.mergeSort fun a b =>
    decide (b.netEdgeBps < a.netEdgeBps ∨ a.netEdgeBps = b.netEdgeBps ∧ a.routeId ≤ b.routeId)

end Docich.Trading
