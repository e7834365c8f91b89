import Docich.Trading.DepthWalk

/-!
# The scan and the depth walk

* A route of the scan is a triangle: three legs of distinct usable markets over three distinct assets.
* Every triangle is a candidate, so each name of a triangle has its route.
* Inside the limits of its legs, the walk of a triangle stays on the first level of every book.
-/

namespace Docich.Trading

open List Option

/-! ## Legs -/

/-- The first levels of a depth book are those that the top of the book gives. -/
structure DepthBook.StartsAt (depth : DepthBook) (book : TopOfBook) : Prop where
  bids : depth.bids.head? = some ⟨book.bid, book.bidAmount, book.bid_pos, book.bidAmount_pos⟩
  asks : depth.asks.head? = some ⟨book.ask, book.askAmount, book.ask_pos, book.askAmount_pos⟩

variable {l : ArbitrageLeg} {found : Scan.Found} {route r : ArbitrageRoute}
    {name symbol base quote : String} {routes : List ArbitrageRoute} {legs : List ArbitrageLeg}
    {books depth : String → Option DepthBook} {current startAmount : ℚ}
    {executions : List DepthLegSimulation}

theorem leg_cases {market : MarketInfo} {book : TopOfBook} {asset : String}
    (h : leg market book asset = some l) :
    l.symbol = market.symbol ∧ l.fromAsset = asset ∧ ∃ quoteFee baseFee,
      market.takerFeeRateQuote = some quoteFee ∧ market.takerFeeRateBase = some baseFee ∧
      l.feeRate = quoteFee ∧ l.feeRateBase = baseFee ∧
      ((asset = market.base ∧ l.side = .sell ∧ l.multiplier = book.bid * (1 - quoteFee) / (1 + baseFee) ∧
          l.maxInput = book.bidAmount * (1 + baseFee)) ∨
        (asset = market.quote ∧ l.side = .buy ∧ l.multiplier = (1 - baseFee) / (book.ask * (1 + quoteFee)) ∧
          l.maxInput = book.askAmount * book.ask * (1 + quoteFee))) := by
  unfold leg at h
  cases hq : market.takerFeeRateQuote with
  | none => simp [hq] at h
  | some quoteFee =>
    cases hb : market.takerFeeRateBase with
    | none => simp [hq, hb] at h
    | some baseFee =>
      simp only [hq, hb] at h
      split at h
      · next hasset =>
        cases h
        exact ⟨rfl, hasset.symm, quoteFee, baseFee, rfl, rfl, rfl, rfl, .inl ⟨hasset, rfl, rfl, rfl⟩⟩
      · split at h
        · next hasset =>
          cases h
          exact ⟨rfl, hasset.symm, quoteFee, baseFee, rfl, rfl, rfl, rfl, .inr ⟨hasset, rfl, rfl, rfl⟩⟩
        · cases h

section Leg

variable {market : MarketInfo} {book : TopOfBook} {asset : String} {l : ArbitrageLeg}

variable (h : leg market book asset = some l)

include h

theorem leg_asset : asset = market.base ∨ asset = market.quote := by
  obtain ⟨-, -, _, _, -, -, -, -, ⟨hasset, -⟩ | ⟨hasset, -⟩⟩ := leg_cases h
  · exact .inl hasset
  · exact .inr hasset

theorem leg_multiplier_pos : 0 < l.multiplier := by
  obtain ⟨-, -, quoteFee, baseFee, hq, hb, -, -, hside⟩ := leg_cases h
  obtain ⟨hq0, hq1⟩ := market.takerFeeRateQuote_range quoteFee hq
  obtain ⟨hb0, hb1⟩ := market.takerFeeRateBase_range baseFee hb
  have hbid := book.bid_pos
  have hask := book.ask_pos
  obtain ⟨-, -, hm, -⟩ | ⟨-, -, hm, -⟩ := hside
  · rw [hm]
    positivity
  · rw [hm]
    positivity

theorem leg_maxInput_pos : 0 < l.maxInput := by
  obtain ⟨-, -, quoteFee, baseFee, hq, hb, -, -, hside⟩ := leg_cases h
  obtain ⟨hq0, -⟩ := market.takerFeeRateQuote_range quoteFee hq
  obtain ⟨hb0, -⟩ := market.takerFeeRateBase_range baseFee hb
  have hask := book.ask_pos
  have hbidAmount := book.bidAmount_pos
  have haskAmount := book.askAmount_pos
  obtain ⟨-, -, -, hm⟩ | ⟨-, -, -, hm⟩ := hside
  · rw [hm]
    positivity
  · rw [hm]
    positivity

omit h

/-- Up to the limit of the leg, the walk uses one level and multiplies by the multiplier of the leg. -/
theorem simulateLeg_of_le {depth : DepthBook} {inputAmount : ℚ} (h : leg market book asset = some l)
    (hd : depth.StartsAt book) (hpos : 0 < inputAmount) (hle : inputAmount ≤ l.maxInput) :
    ∃ execution, simulateLeg l depth inputAmount = .ok execution ∧ execution.complete = true ∧
      execution.levelsUsed = 1 ∧ execution.outputAmount = inputAmount * l.multiplier := by
  obtain ⟨-, -, quoteFee, baseFee, hq, hb, hfee, hfeeBase, hside⟩ := leg_cases h
  obtain ⟨hq0, -⟩ := market.takerFeeRateQuote_range quoteFee hq
  obtain ⟨hb0, -⟩ := market.takerFeeRateBase_range baseFee hb
  obtain ⟨-, hs, hm, hmax⟩ | ⟨-, hs, hm, hmax⟩ := hside
  · obtain ⟨levels, hlevels⟩ := List.head?_eq_some_iff.mp hd.bids
    have hcap : inputAmount ≤ levelInputCapacity l ⟨book.bid, book.bidAmount, book.bid_pos, book.bidAmount_pos⟩ := by
      simpa [levelInputCapacity, hs, hfeeBase, hmax] using hle
    have hwalk := foldl_level_of_le levels hpos hcap
    rw [← hlevels] at hwalk
    have hl : legLevels l depth = depth.bids := by simp [legLevels, hs]
    refine ⟨_, by rw [simulateLeg, if_neg hpos.not_ge, hl, hwalk], by simp, rfl, ?_⟩
    simp only [hs, levelGross, executedBase, ArbitrageLeg.feeRateQuote, hfee, hfeeBase, hm]
    field_simp
  · obtain ⟨levels, hlevels⟩ := List.head?_eq_some_iff.mp hd.asks
    have hcap : inputAmount ≤ levelInputCapacity l ⟨book.ask, book.askAmount, book.ask_pos, book.askAmount_pos⟩ := by
      simpa [levelInputCapacity, hs, ArbitrageLeg.feeRateQuote, hfee, hmax] using hle
    have hwalk := foldl_level_of_le levels hpos hcap
    rw [← hlevels] at hwalk
    have hl : legLevels l depth = depth.asks := by simp [legLevels, hs]
    refine ⟨_, by rw [simulateLeg, if_neg hpos.not_ge, hl, hwalk], by simp, rfl, ?_⟩
    simp only [hs, levelGross, executedBase, ArbitrageLeg.feeRateQuote, hfee, hfeeBase, hm]
    field_simp

end Leg

/-! ## Triangles -/

namespace Scan

variable {s : Scan}

/-- A leg of a usable market. -/
def IsLeg (s : Scan) (l : ArbitrageLeg) : Prop :=
  ∃ market ∈ s.markets, ∃ book, s.usableBook market = some book ∧ leg market book l.fromAsset = some l

/-- A directed cycle of three distinct usable markets over three distinct assets that reaches the threshold. -/
inductive Triangle (s : Scan) : List ArbitrageLeg → Prop
  | mk {first second third : ArbitrageLeg} (first_leg : s.IsLeg first) (second_leg : s.IsLeg second)
      (third_leg : s.IsLeg third) (to_second : first.toAsset = second.fromAsset)
      (to_third : second.toAsset = third.fromAsset) (to_first : third.toAsset = first.fromAsset)
      (symbols : [first.symbol, second.symbol, third.symbol].Nodup)
      (assets : [first.fromAsset, second.fromAsset, third.fromAsset].Nodup)
      (reaches : s.minNetEdgeBps ≤ edgeBps (first.multiplier * second.multiplier * third.multiplier)) :
      Triangle s [first, second, third]

variable {market : MarketInfo} {book : TopOfBook} {l : ArbitrageLeg}

theorem usableBook_books (h : s.usableBook market = some book) :
    s.books market.symbol = some book := by
  unfold usableBook at h
  cases hb : s.books market.symbol with
  | none => simp [hb] at h
  | some b =>
    simp only [hb] at h
    split at h
    · cases h
    · split at h
      · cases h
      · exact h

theorem IsLeg.multiplier_pos (h : s.IsLeg l) : 0 < l.multiplier := by
  obtain ⟨_, -, _, -, hl⟩ := h
  exact leg_multiplier_pos hl

theorem IsLeg.maxInput_pos (h : s.IsLeg l) : 0 < l.maxInput := by
  obtain ⟨_, -, _, -, hl⟩ := h
  exact leg_maxInput_pos hl

theorem mem_usable :
    (market, book) ∈ s.usable ↔ market ∈ s.markets ∧ s.usableBook market = some book := by
  unfold usable
  rw [mem_filterMap]
  constructor
  · rintro ⟨m, hm, h⟩
    obtain ⟨b, hb, he⟩ := map_eq_some_iff.mp h
    cases he
    exact ⟨hm, hb⟩
  · rintro ⟨hm, hb⟩
    exact ⟨market, hm, by rw [hb]; rfl⟩

theorem mem_outgoing {asset : String} :
    l ∈ s.outgoing asset ↔ s.IsLeg l ∧ l.fromAsset = asset := by
  unfold outgoing
  rw [mem_flatMap]
  constructor
  · rintro ⟨⟨market, book⟩, hu, h⟩
    obtain ⟨hm, hb⟩ := mem_usable.mp hu
    obtain ⟨a, -, ha⟩ := mem_filterMap.mp h
    split at ha
    · next he =>
      subst he
      have hfrom : l.fromAsset = a := (leg_cases ha).2.1
      exact ⟨⟨market, hm, book, hb, hfrom ▸ ha⟩, hfrom⟩
    · cases ha
  · rintro ⟨⟨market, hm, book, hb, hl⟩, rfl⟩
    refine ⟨(market, book), mem_usable.mpr ⟨hm, hb⟩, mem_filterMap.mpr ⟨l.fromAsset, ?_, ?_⟩⟩
    · simpa using leg_asset hl
    · rw [if_pos rfl, hl]

theorem mem_starts (h : s.IsLeg l) : l.fromAsset ∈ s.starts := by
  obtain ⟨market, hm, book, hb, hl⟩ := h
  unfold starts
  rw [mem_mergeSort, mem_dedup, assets, mem_flatMap]
  refine ⟨(market, book), mem_usable.mpr ⟨hm, hb⟩, mem_filter.mpr ⟨?_, by rw [hl]; rfl⟩⟩
  simpa using leg_asset hl

theorem maxStartAmount_pos {start : String} {first second third : ArbitrageLeg} (h1 : s.IsLeg first)
    (h2 : s.IsLeg second) (h3 : s.IsLeg third) : 0 < (routeOf start first second third).maxStartAmount := by
  have hm := mul_pos h1.multiplier_pos h2.multiplier_pos
  exact lt_min (lt_min h1.maxInput_pos (div_pos h2.maxInput_pos h1.multiplier_pos)) (div_pos h3.maxInput_pos hm)

/-- The candidates are the routes of the triangles. -/
theorem mem_candidates {route : ArbitrageRoute} :
    route ∈ s.candidates ↔ ∃ first second third, s.Triangle [first, second, third] ∧
      route = routeOf first.fromAsset first second third := by
  unfold candidates
  simp only [mem_flatMap]
  constructor
  · rintro ⟨start, -, first, hfirst, second, hsecond, h⟩
    obtain ⟨hl1, rfl⟩ := mem_outgoing.mp hfirst
    obtain ⟨hl2, hto2⟩ := mem_outgoing.mp hsecond
    split at h
    · cases h
    · next hsym =>
      obtain ⟨third, hthird, h⟩ := mem_filterMap.mp h
      obtain ⟨hl3, hto3⟩ := mem_outgoing.mp hthird
      split at h
      · cases h
      · next hsyms =>
        split at h
        · cases h
        · next hassets =>
          split at h
          · cases h
          · next hedge =>
            split at h
            · cases h
            · simp only [not_or, not_not] at hsyms
              rw [not_not, ← hto2, ← hto3] at hassets
              refine ⟨first, second, third, .mk hl1 hl2 hl3 hto2.symm hto3.symm hsyms.2.2 ?_ hassets ?_,
                (some.inj h).symm⟩
              · simp [Ne.symm hsym, Ne.symm hsyms.1, Ne.symm hsyms.2.1]
              · exact not_lt.mp hedge
  · rintro ⟨first, second, third, htri, rfl⟩
    cases htri with
    | mk hl1 hl2 hl3 hto2 hto3 hto1 hsyms hassets hedge =>
      refine ⟨first.fromAsset, mem_starts hl1, first, mem_outgoing.mpr ⟨hl1, rfl⟩, second,
        mem_outgoing.mpr ⟨hl2, hto2.symm⟩, ?_⟩
      simp only [nodup_cons, mem_cons, not_mem_nil, or_false, not_or] at hsyms
      rw [if_neg (Ne.symm hsyms.1.1), mem_filterMap]
      refine ⟨third, mem_outgoing.mpr ⟨hl3, hto3.symm⟩, ?_⟩
      have hreaches : ¬(routeOf first.fromAsset first second third).netEdgeBps < s.minNetEdgeBps := not_lt.mpr hedge
      rw [if_neg (by simp [Ne.symm hsyms.1.2, Ne.symm hsyms.2.1, hto1]), if_neg (by rwa [not_not, hto2, hto3]),
        if_neg hreaches, if_neg (maxStartAmount_pos hl1 hl2 hl3).not_ge]

end Scan

/-! ## The kept routes -/

theorem mem_keep (h : r ∈ Scan.keep found route) :
    r = route ∨ r ∈ found := by
  have hup : r ∈ found.upsert route → r = route ∨ r ∈ found := fun h =>
    (Durable.Table.mem_upsert.mp h).imp_right And.left
  unfold Scan.keep at h
  split at h
  · exact hup h
  · split at h
    · exact hup h
    · exact .inr h

/-- No name is lost, and the name of the new route is there. -/
theorem exists_mem_keep (found : Scan.Found) (route : ArbitrageRoute)
    (h : name = route.routeId ∨ ∃ r ∈ found, r.routeId = name) :
    ∃ r ∈ Scan.keep found route, r.routeId = name := by
  have hup : ∃ r ∈ found.upsert route, r.routeId = name := by
    by_cases hname : name = route.routeId
    · exact ⟨route, Durable.Table.mem_upsert.mpr (.inl rfl), hname.symm⟩
    · obtain ⟨r, hr, rfl⟩ := h.resolve_left hname
      exact ⟨r, Durable.Table.mem_upsert.mpr (.inr ⟨hr, hname⟩), rfl⟩
  unfold Scan.keep
  split
  · exact hup
  · next previous hprev =>
    split
    · exact hup
    · obtain ⟨hmem, hid⟩ := Durable.Table.find?_eq_some.mp hprev
      rcases h with rfl | hr
      · exact ⟨previous, hmem, hid⟩
      · exact hr

theorem mem_foldl_keep (h : r ∈ routes.foldl Scan.keep found) : r ∈ routes ∨ r ∈ found := by
  induction routes generalizing found with
  | nil => exact .inr h
  | cons route routes ih =>
    rcases ih h with h | h
    · exact .inl (mem_cons_of_mem _ h)
    · rcases mem_keep h with rfl | h
      · exact .inl mem_cons_self
      · exact .inr h

theorem exists_mem_foldl_keep (h : (∃ r ∈ routes, r.routeId = name) ∨ ∃ r ∈ found, r.routeId = name) :
    ∃ r ∈ routes.foldl Scan.keep found, r.routeId = name := by
  induction routes generalizing found with
  | nil => simpa using h
  | cons route routes ih =>
    apply ih
    rcases h with ⟨r, hr, hname⟩ | h
    · rcases mem_cons.mp hr with rfl | hr
      · exact .inr (exists_mem_keep found r (.inl hname.symm))
      · exact .inl ⟨r, hr, hname⟩
    · exact .inr (exists_mem_keep found route (.inr h))

variable {s : Scan}

theorem mem_scan : route ∈ scanTriangularArbitrage s ↔ route ∈ s.found := by
  unfold scanTriangularArbitrage
  rw [mem_mergeSort]
  rfl

theorem scan_nodup : (scanTriangularArbitrage s).Nodup := by
  unfold scanTriangularArbitrage
  rw [(mergeSort_perm _ _).nodup_iff]
  exact s.found.nodup.of_map

theorem scan_routeOf (h : route ∈ scanTriangularArbitrage s) :
    ∃ first second third, s.Triangle [first, second, third] ∧ route = routeOf first.fromAsset first second third := by
  rcases mem_foldl_keep (mem_scan.mp h) with h | h
  · exact Scan.mem_candidates.mp h
  · exact absurd h Durable.Table.not_mem_empty

theorem scan_triangle (h : route ∈ scanTriangularArbitrage s) :
    s.Triangle route.legs ∧ route.routeId = canonicalCycle route.legs := by
  obtain ⟨_, _, _, htri, rfl⟩ := scan_routeOf h
  exact ⟨htri, rfl⟩

/-- Every triangle finds a route under its name. -/
theorem exists_scan_of_triangle (h : s.Triangle legs) :
    ∃ route ∈ scanTriangularArbitrage s, route.routeId = canonicalCycle legs := by
  cases h with
  | @mk first second third hl1 hl2 hl3 hto2 hto3 hto1 hsyms hassets hedge =>
    have htri : s.Triangle [first, second, third] := .mk hl1 hl2 hl3 hto2 hto3 hto1 hsyms hassets hedge
    have hfound : ∃ r ∈ s.found, r.routeId = canonicalCycle [first, second, third] :=
      exists_mem_foldl_keep (.inl ⟨_, Scan.mem_candidates.mpr ⟨first, second, third, htri, rfl⟩, rfl⟩)
    obtain ⟨r, hr, hname⟩ := hfound
    exact ⟨r, mem_scan.mpr hr, hname⟩

theorem eq_of_routeId_eq {r' : ArbitrageRoute} (hr : r ∈ scanTriangularArbitrage s)
    (hr' : r' ∈ scanTriangularArbitrage s) (h : r.routeId = r'.routeId) : r = r' :=
  Durable.Table.eq_of_key_eq (mem_scan.mp hr) (mem_scan.mp hr') h

/-! ## Exactly one route for each cycle -/

/-- The scan returns the triangles, one route for all rotations of one. -/
structure OneRoutePerCycle (s : Scan) : Prop where
  nodup : (scanTriangularArbitrage s).Nodup
  triangle : ∀ route ∈ scanTriangularArbitrage s, s.Triangle route.legs
  unique : ∀ legs, s.Triangle legs → ∃! route, route ∈ scanTriangularArbitrage s ∧ route.legs ~r legs

/-- Two triangles with one name are rotations of each other. -/
def NamesTellCycles (s : Scan) : Prop :=
  ∀ legs legs', s.Triangle legs → s.Triangle legs' → canonicalCycle legs = canonicalCycle legs' → legs ~r legs'

theorem oneRoutePerCycle_iff (s : Scan) : OneRoutePerCycle s ↔ NamesTellCycles s := by
  constructor
  · intro h legs legs' hlegs hlegs' hname
    obtain ⟨r, ⟨hr, hrot⟩, -⟩ := h.unique legs hlegs
    obtain ⟨r', ⟨hr', hrot'⟩, -⟩ := h.unique legs' hlegs'
    have hids : r.routeId = r'.routeId := by
      rw [(scan_triangle hr).2, (scan_triangle hr').2, canonicalCycle_congr hrot, canonicalCycle_congr hrot', hname]
    rw [eq_of_routeId_eq hr hr' hids] at hrot
    exact hrot.symm.trans hrot'
  · intro h
    refine ⟨scan_nodup, fun route hroute => (scan_triangle hroute).1, ?_⟩
    intro legs hlegs
    obtain ⟨r, hr, hname⟩ := exists_scan_of_triangle hlegs
    obtain ⟨htri, hid⟩ := scan_triangle hr
    refine ⟨r, ⟨hr, h _ _ htri hlegs (hid ▸ hname)⟩, ?_⟩
    rintro r' ⟨hr', hrot'⟩
    apply eq_of_routeId_eq hr' hr
    rw [(scan_triangle hr').2, hname, canonicalCycle_congr hrot']

/-! ## The walk of a route -/

theorem simulateLegs_cons {depth : DepthBook} {execution : DepthLegSimulation}
    (hb : books l.symbol = some depth) (he : simulateLeg l depth current = .ok execution)
    (hc : execution.complete = true) :
    simulateLegs books (l :: legs) current executions =
      simulateLegs books legs execution.outputAmount (executions ++ [execution]) := by
  simp only [simulateLegs, hb, he]
  exact if_pos hc

theorem simulateRouteDepth_completed (hpos : 0 < startAmount)
    (hlegs : rotatedLegs route route.startAsset = .ok legs)
    (h : simulateLegs books legs startAmount [] = .ok (.completed current executions)) :
    simulateRouteDepth route books startAmount none =
      .ok ⟨route.routeId, route.startAsset, startAmount, some current, some (edgeBps (current / startAmount)), true,
        none, executions⟩ := by
  unfold simulateRouteDepth
  rw [if_neg hpos.not_ge]
  simp only [filter_none, getD_none, hlegs, bind, Except.bind, h]

/-- The depth books of the legs of a route start at the top of the book that the scan used. -/
def DepthFor (s : Scan) (depth : String → Option DepthBook) (route : ArbitrageRoute) : Prop :=
  ∀ l ∈ route.legs, ∀ book, s.books l.symbol = some book → ∃ d, depth l.symbol = some d ∧ d.StartsAt book

theorem Scan.IsLeg.simulateLeg {inputAmount : ℚ}
    (h : s.IsLeg l)
    (hd : ∀ book, s.books l.symbol = some book → ∃ d, depth l.symbol = some d ∧ d.StartsAt book)
    (hpos : 0 < inputAmount) (hle : inputAmount ≤ l.maxInput) :
    ∃ d execution, depth l.symbol = some d ∧ Trading.simulateLeg l d inputAmount = .ok execution ∧
      execution.complete = true ∧ execution.levelsUsed = 1 ∧ execution.outputAmount = inputAmount * l.multiplier := by
  obtain ⟨market, -, book, hb, hl⟩ := h
  have hbook : s.books l.symbol = some book := by
    rw [(leg_cases hl).1]
    exact usableBook_books hb
  obtain ⟨d, hdepth, hstarts⟩ := hd book hbook
  obtain ⟨execution, he, hrest⟩ := simulateLeg_of_le hl hstarts hpos hle
  exact ⟨d, execution, hdepth, he, hrest⟩

/-- What the depth walk of a route returns when it agrees with the scan. -/
structure DepthRouteSimulation.Agrees (sim : DepthRouteSimulation) (route : ArbitrageRoute) : Prop where
  complete : sim.complete = true
  legs : sim.legs.length = route.legs.length
  levels : ∀ execution ∈ sim.legs, execution.levelsUsed = 1
  edge : sim.netEdgeBps = some route.netEdgeBps

theorem simulateRouteDepth_agrees (hr : route ∈ scanTriangularArbitrage s)
    (hd : DepthFor s depth route) (hpos : 0 < startAmount)
    (hle : startAmount ≤ route.maxStartAmount) :
    ∃ sim, simulateRouteDepth route depth startAmount none = .ok sim ∧ sim.Agrees route := by
  obtain ⟨first, second, third, htri, rfl⟩ := scan_routeOf hr
  cases htri with
  | mk hl1 hl2 hl3 hto2 hto3 hto1 hsyms hassets hedge =>
    have hm1 := hl1.multiplier_pos
    have hm2 := hl2.multiplier_pos
    -- the limit of each leg, in units of its own input
    have hle1 : startAmount ≤ first.maxInput := hle.trans ((min_le_left _ _).trans (min_le_left _ _))
    have hle2 : startAmount * first.multiplier ≤ second.maxInput :=
      (le_div_iff₀ hm1).mp (hle.trans ((min_le_left _ _).trans (min_le_right _ _)))
    have hle3 : startAmount * first.multiplier * second.multiplier ≤ third.maxInput := by
      rw [mul_assoc]
      exact (le_div_iff₀ (mul_pos hm1 hm2)).mp (hle.trans (min_le_right _ _))
    have hpos2 : 0 < startAmount * first.multiplier := mul_pos hpos hm1
    have hpos3 : 0 < startAmount * first.multiplier * second.multiplier := mul_pos hpos2 hm2
    obtain ⟨d1, e1, hd1, he1, hc1, hu1, ho1⟩ := hl1.simulateLeg (hd first (by simp [routeOf])) hpos hle1
    obtain ⟨d2, e2, hd2, he2, hc2, hu2, ho2⟩ := hl2.simulateLeg (hd second (by simp [routeOf])) hpos2 hle2
    obtain ⟨d3, e3, hd3, he3, hc3, hu3, ho3⟩ := hl3.simulateLeg (hd third (by simp [routeOf])) hpos3 hle3
    have hlegs : simulateLegs depth [first, second, third] startAmount [] =
        .ok (.completed (startAmount * first.multiplier * second.multiplier * third.multiplier) [e1, e2, e3]) := by
      rw [simulateLegs_cons hd1 he1 hc1, ho1, simulateLegs_cons hd2 he2 hc2, ho2, simulateLegs_cons hd3 he3 hc3, ho3]
      rfl
    have hrot : rotatedLegs (routeOf first.fromAsset first second third) first.fromAsset =
        .ok [first, second, third] := by
      simp [rotatedLegs, routeOf, List.findIdx?_cons]
    have hedge' : edgeBps (startAmount * first.multiplier * second.multiplier * third.multiplier / startAmount) =
        edgeBps (first.multiplier * second.multiplier * third.multiplier) := by
      congr 1
      field_simp
    refine ⟨_, simulateRouteDepth_completed hpos hrot hlegs, rfl, rfl, ?_, ?_⟩
    · simp [hu1, hu2, hu3]
    · exact congrArg some hedge'

/-- Inside its limit, every route of the scan walks through its depth books as the scan computed. -/
def WalksAgree (s : Scan) : Prop :=
  ∀ route ∈ scanTriangularArbitrage s, ∀ depth, DepthFor s depth route →
    ∀ startAmount, 0 < startAmount → startAmount ≤ route.maxStartAmount →
      ∃ sim, simulateRouteDepth route depth startAmount none = .ok sim ∧ sim.Agrees route

/-- The walks agree for every input. The routes are the cycles, one each, exactly when the joined names of the
cycles tell them apart. -/
theorem scan_agrees (s : Scan) : WalksAgree s ∧ (OneRoutePerCycle s ↔ NamesTellCycles s) := by
  refine ⟨?_, oneRoutePerCycle_iff s⟩
  intro route hroute depth hdepth startAmount hpos hle
  exact simulateRouteDepth_agrees hroute hdepth hpos hle

def freeMarket (symbol base quote : String) : MarketInfo where
  symbol := symbol
  base := base
  quote := quote
  spot := true
  active := true
  amountStep := none
  minAmount := none
  minCost := none
  takerFeeRateBase := some 0
  takerFeeRateQuote := some 0
  marketOrderEnabled := true
  amountStep_pos := none_pos
  minAmount_pos := none_pos
  minCost_pos := none_pos
  takerFeeRateBase_range := free_range
  takerFeeRateQuote_range := free_range

def evenBook (price : ℚ) (h : 0 < price) : TopOfBook := ⟨price, price, 0, 1, 1, h, h, le_rfl, one_pos, one_pos⟩

/-- Five markets, two of them with the separators of the joined name in their symbols. -/
def separatorScan : Scan where
  markets := ⟨[freeMarket "1|Q>R@2" "P" "Q", freeMarket "3" "Q" "R", freeMarket "4" "R" "P",
    freeMarket "1" "P" "Q", freeMarket "2|Q>R@3" "Q" "R"], by decide⟩
  books symbol := some (if symbol = "4" then evenBook 2 pos_two else evenBook 1 pos_one)
  now := 0

def freeLeg (symbol base quote : String) (price : ℚ) : ArbitrageLeg :=
  ⟨symbol, base, quote, .sell, price, 0, price * (1 - 0) / (1 + 0), 1 * (1 + 0), 0⟩

theorem isLeg_freeLeg {s : Scan} {price : ℚ} {h : 0 < price}
    (hm : freeMarket symbol base quote ∈ s.markets)
    (hb : s.usableBook (freeMarket symbol base quote) = some (evenBook price h)) :
    s.IsLeg (freeLeg symbol base quote price) := by
  refine ⟨_, hm, _, hb, ?_⟩
  show leg (freeMarket symbol base quote) (evenBook price h) base = _
  simp [leg, freeMarket, evenBook, freeLeg]

theorem separatorScan_usableBook (h : symbol ≠ "4") :
    separatorScan.usableBook (freeMarket symbol base quote) = some (evenBook 1 pos_one) := by
  simp [Scan.usableBook, separatorScan, freeMarket, evenBook, h]

/-- Two cycles, through `1|Q>R@2`, `3`, `4` and through `1`, `2|Q>R@3`, `4`, have one name. -/
theorem separatorScan_one_name : ¬OneRoutePerCycle separatorScan := by
  rw [oneRoutePerCycle_iff]
  intro h
  have h4 : separatorScan.IsLeg (freeLeg "4" "R" "P" 2) := by
    refine isLeg_freeLeg (h := by norm_num) (.tail _ (.tail _ (.head _))) ?_
    simp [Scan.usableBook, separatorScan, freeMarket, evenBook]
  have hone : separatorScan.Triangle
      [freeLeg "1|Q>R@2" "P" "Q" 1, freeLeg "3" "Q" "R" 1, freeLeg "4" "R" "P" 2] :=
    .mk (isLeg_freeLeg (.head _) (separatorScan_usableBook (by decide)))
      (isLeg_freeLeg (.tail _ (.head _)) (separatorScan_usableBook (by decide))) h4 rfl rfl rfl (by decide)
      (by decide) (by norm_num [separatorScan, edgeBps, freeLeg])
  have htwo : separatorScan.Triangle
      [freeLeg "1" "P" "Q" 1, freeLeg "2|Q>R@3" "Q" "R" 1, freeLeg "4" "R" "P" 2] :=
    .mk (isLeg_freeLeg (.tail _ (.tail _ (.tail _ (.head _)))) (separatorScan_usableBook (by decide)))
      (isLeg_freeLeg (.tail _ (.tail _ (.tail _ (.tail _ (.head _))))) (separatorScan_usableBook (by decide))) h4
      rfl rfl rfl (by decide) (by decide) (by norm_num [separatorScan, edgeBps, freeLeg])
  have hrot := h _ _ hone htwo (by decide)
  have hmem : freeLeg "1" "P" "Q" 1 ∈
      [freeLeg "1|Q>R@2" "P" "Q" 1, freeLeg "3" "Q" "R" 1, freeLeg "4" "R" "P" 2] :=
    hrot.mem_iff.mpr mem_cons_self
  simp [freeLeg] at hmem

end Docich.Trading
