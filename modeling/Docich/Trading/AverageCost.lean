import Docich.Trading.Performance

/-!
# One average cost

`account` is the average-cost account of a list of fills, with the profit of every fill (`matched`). The totals, the
profit of a fill, the round trips and the cost basis are all read off it (`average_cost_agree`).
-/

namespace Docich.Trading

open List Option Function Finset

/-! ## The account -/

/-- Something is held, at a cost; or nothing, at none. -/
def Lot.Held (l : Lot) : Prop := l.held = 0 ∧ l.cost = 0 ∨ 0 < l.held ∧ 0 < l.cost

def Lot.realized (l : Lot) (f : Fill) : Option ℚ :=
  match f.side with
  | .buy => none
  | .sell => if l.held ≤ 0 then none else some (min f.amount l.held * (f.price - l.cost / l.held))

def Lot.next (l : Lot) (f : Fill) : Lot :=
  match f.side with
  | .buy => ⟨l.held + f.amount, l.cost + f.amount * f.price⟩
  | .sell => if l.held ≤ 0 then l else ⟨l.held - min f.amount l.held, l.cost - l.cost / l.held * min f.amount l.held⟩

def account (lots : String → Lot) (f : Fill) : String → Lot := Function.update lots f.symbol ((lots f.symbol).next f)

/-- Every fill with its profit. -/
def matched : (String → Lot) → List Fill → List (Fill × Option ℚ)
  | _, [] => []
  | lots, f :: fills => (f, (lots f.symbol).realized f) :: matched (account lots f) fills

def realizedSum (l : List (Fill × Option ℚ)) : ℚ := (l.map fun p => p.2.getD 0).sum

variable {l : Lot} {lots abstract : String → Lot} {α : Type} {f : Fill} {fills : List Fill}

/-- The cost of what a sell leaves is never negative, so clamping it changes nothing. -/
theorem Lot.Held.sell (h : l.Held) (hpos : ¬ l.held ≤ 0) (f : Fill) :
    0 ≤ l.cost - l.cost / l.held * min f.amount l.held := by
  rw [not_le] at hpos
  have hcost : 0 < l.cost := by
    rcases h with ⟨h, -⟩ | ⟨-, h⟩
    · exact absurd h hpos.ne'
    · exact h
  have hle : l.cost / l.held * min f.amount l.held ≤ l.cost / l.held * l.held :=
    mul_le_mul_of_nonneg_left (min_le_right _ _) (div_pos hcost hpos).le
  rw [div_mul_cancel₀ _ hpos.ne'] at hle
  linarith

theorem Lot.Held.next (h : l.Held) (f : Fill) : (l.next f).Held := by
  unfold Lot.next
  cases f.side with
  | buy =>
    have hvalue := mul_pos f.amount_pos f.price_pos
    have hamount := f.amount_pos
    refine .inr ⟨?_, ?_⟩
    · rcases h with ⟨h, -⟩ | ⟨h, -⟩ <;> dsimp only <;> linarith
    · rcases h with ⟨-, h⟩ | ⟨-, h⟩ <;> dsimp only <;> linarith
  | sell =>
    dsimp only
    split
    · exact h
    · next hpos =>
      rw [not_le] at hpos
      have hcost : 0 < l.cost := by
        rcases h with ⟨h, -⟩ | ⟨-, h⟩
        · exact absurd h hpos.ne'
        · exact h
      have hleft : l.cost - l.cost / l.held * min f.amount l.held = l.cost / l.held * (l.held - min f.amount l.held) := by
        rw [mul_sub, div_mul_cancel₀ _ hpos.ne']
      unfold Lot.Held
      rw [hleft]
      rcases (min_le_right f.amount l.held).lt_or_eq with hlt | heq
      · have hrest : 0 < l.held - min f.amount l.held := by linarith
        exact .inr ⟨hrest, mul_pos (div_pos hcost hpos) hrest⟩
      · rw [heq, sub_self, mul_zero]
        exact .inl ⟨rfl, rfl⟩

theorem account_held (h : ∀ symbol, (lots symbol).Held) (f : Fill) :
    ∀ symbol, (account lots f symbol).Held := by
  intro symbol
  unfold account
  by_cases hs : symbol = f.symbol
  · rw [hs, update_self]
    exact (h f.symbol).next f
  · rw [update_of_ne hs]
    exact h symbol

theorem foldl_account_held (h : ∀ symbol, (lots symbol).Held) (fills : List Fill) :
    ∀ symbol, (fills.foldl account lots symbol).Held := by
  induction fills generalizing lots with
  | nil => exact h
  | cons f fills ih => exact ih (account_held h f)

/-! ## The four accounts -/

/-- The dictionary holds the account, each entry with its lot. -/
def Keeps {α : Type} (lot : α → Lot) (lots : String → Option α) (abstract : String → Lot) : Prop :=
  ∀ symbol, ((lots symbol).map lot).getD .zero = abstract symbol

/-- An entry, or the default, has the lot of the account. -/
theorem Keeps.entry {lot : α → Lot} {lots : String → Option α}
    (h : Keeps lot lots abstract) {default : α} (hdefault : lot default = .zero) (symbol : String) :
    lot ((lots symbol).getD default) = abstract symbol := by
  rw [← h symbol, ← hdefault]
  cases lots symbol <;> rfl

theorem Keeps.update {lot : α → Lot} {lots : String → Option α}
    (h : Keeps lot lots abstract) {entry : α} (hentry : lot entry = (abstract f.symbol).next f) :
    Keeps lot (update lots f.symbol (some entry)) (account abstract f) := by
  intro symbol
  unfold account
  by_cases hs : symbol = f.symbol
  · rw [hs, update_self, update_self]
    exact hentry
  · rw [update_of_ne hs, update_of_ne hs]
    exact h symbol

section Accounts

variable {dayStart : ℚ} {abstract : String → Lot}
variable {l : Lot} {f : Fill} {s : Totals} {lots : String → Option Basis}

theorem Lot.next_buy (hf : f.side = .buy) :
    l.next f = ⟨l.held + f.amount, l.cost + f.amount * f.price⟩ ∧ l.realized f = none := by
  unfold Lot.next Lot.realized
  rw [hf]
  exact ⟨rfl, rfl⟩

theorem Lot.next_none (hf : f.side = .sell) (hheld : l.held ≤ 0) :
    l.next f = l ∧ l.realized f = none := by
  unfold Lot.next Lot.realized
  rw [hf]
  exact ⟨if_pos hheld, if_pos hheld⟩

theorem Lot.next_sell (hl : l.Held) (hf : f.side = .sell) (hheld : ¬ l.held ≤ 0) :
    l.next f = ⟨l.held - min f.amount l.held, max 0 (l.cost - l.cost / l.held * min f.amount l.held)⟩ ∧
      l.realized f = some (min f.amount l.held * (f.price - l.cost / l.held)) := by
  have hclamp := max_eq_right (hl.sell hheld f)
  unfold Lot.next Lot.realized
  rw [hf, hclamp]
  exact ⟨if_neg hheld, if_neg hheld⟩

variable (dayStart) in
/-- A fill of the totals: the account moves on, and its profit is added. -/
theorem performanceFill_ok (h : Keeps id s.lots abstract) (hheld : ∀ symbol, (abstract symbol).Held) (f : Fill) :
    Keeps id (performanceFill dayStart s f).lots (account abstract f) ∧
      (performanceFill dayStart s f).realizedTotal = s.realizedTotal + ((abstract f.symbol).realized f).getD 0 ∧
      (performanceFill dayStart s f).realizedToday =
        s.realizedToday + if dayStart ≤ f.filledAt then ((abstract f.symbol).realized f).getD 0 else 0 := by
  have hlot : (s.lots f.symbol).getD .zero = abstract f.symbol := h.entry rfl f.symbol
  unfold performanceFill
  dsimp only
  rw [hlot]
  cases hf : f.side with
  | buy =>
    obtain ⟨hnext, hnone⟩ := Lot.next_buy (l := abstract f.symbol) hf
    dsimp only
    rw [update_idem, hnone]
    exact ⟨h.update hnext.symm, by simp, by simp⟩
  | sell =>
    dsimp only
    split
    · next hzero =>
      obtain ⟨hnext, hnone⟩ := Lot.next_none hf hzero
      rw [hnone]
      exact ⟨h.update hnext.symm, by simp, by simp⟩
    · next hpos =>
      obtain ⟨hnext, hsome⟩ := Lot.next_sell (hheld f.symbol) hf hpos
      rw [update_idem, hsome]
      refine ⟨h.update hnext.symm, rfl, ?_⟩
      split
      · rfl
      · rw [add_zero]

variable (dayStart) in
theorem performanceTotals_from (h : Keeps id s.lots abstract) (hheld : ∀ symbol, (abstract symbol).Held)
    (fills : List Fill) :
    Keeps id (fills.foldl (performanceFill dayStart) s).lots (fills.foldl account abstract) ∧
      (fills.foldl (performanceFill dayStart) s).realizedTotal = s.realizedTotal + realizedSum (matched abstract fills) ∧
      (fills.foldl (performanceFill dayStart) s).realizedToday = s.realizedToday +
        realizedSum ((matched abstract fills).filter fun p => dayStart ≤ p.1.filledAt) := by
  induction fills generalizing s abstract with
  | nil => exact ⟨h, by simp [matched, realizedSum], by simp [matched, realizedSum]⟩
  | cons f fills ih =>
    obtain ⟨hk, htotal, htoday⟩ := performanceFill_ok dayStart h hheld f
    obtain ⟨hk', htotal', htoday'⟩ := ih hk (account_held hheld f)
    refine ⟨hk', ?_, ?_⟩
    · rw [List.foldl_cons, htotal', htotal]
      simp only [matched, realizedSum, List.map_cons, List.sum_cons]
      ring
    · rw [List.foldl_cons, htoday', htoday]
      simp only [matched, realizedSum]
      by_cases hday : dayStart ≤ f.filledAt
      · rw [if_pos hday, List.filter_cons_of_pos (by simpa using hday), List.map_cons, List.sum_cons]
        ring
      · rw [if_neg hday, List.filter_cons_of_neg (by simpa using hday), add_zero]

/-- The profit of a fill is the one it is matched with. -/
theorem realizedPnlFrom_eq {lots : String → Option Lot} (h : Keeps id lots abstract) (hheld : ∀ symbol, (abstract symbol).Held)
    (target : String) (fills : List Fill) :
    realizedPnlFrom target lots fills = ((matched abstract fills).find? fun p => p.1.id = target).bind Prod.snd := by
  induction fills generalizing lots abstract with
  | nil => rfl
  | cons f fills ih =>
    have hlot : (lots f.symbol).getD .zero = abstract f.symbol := h.entry rfl f.symbol
    unfold realizedPnlFrom
    rw [hlot]
    simp only [matched, List.find?_cons]
    cases hf : f.side with
    | buy =>
      obtain ⟨hnext, hnone⟩ := Lot.next_buy (l := abstract f.symbol) hf
      rw [update_idem, hnone]
      by_cases ht : f.id = target
      · simp [ht]
      · simp [ht, ih (h.update hnext.symm) (account_held hheld f)]
    | sell =>
      dsimp only
      split
      · next hzero =>
        obtain ⟨hnext, hnone⟩ := Lot.next_none hf hzero
        rw [hnone]
        by_cases ht : f.id = target
        · simp [ht]
        · simp [ht, ih (h.update hnext.symm) (account_held hheld f)]
      · next hpos =>
        obtain ⟨hnext, hsome⟩ := Lot.next_sell (hheld f.symbol) hf hpos
        rw [update_idem, hsome]
        by_cases ht : f.id = target
        · simp [ht]
        · simp [ht, ih (h.update hnext.symm) (account_held hheld f)]

def OpenTrip.lot (o : OpenTrip) : Lot := ⟨o.held, o.cost⟩

def Basis.lot (b : Basis) : Lot := ⟨b.held, b.cost⟩

/-- The profit of a trip, when it was closed. -/
def Trip.result (t : Trip) : ℚ × ℚ := (t.closedAt, t.realized)

theorem roundTripFill_ok (signalContext : Option String → Option String) {s : Trips}
    (h : Keeps OpenTrip.lot s.lots abstract) (hheld : ∀ symbol, (abstract symbol).Held) (f : Fill) :
    Keeps OpenTrip.lot (roundTripFill signalContext s f).lots (account abstract f) ∧
      (roundTripFill signalContext s f).trips.map Trip.result =
        s.trips.map Trip.result ++ (((abstract f.symbol).realized f).map fun pnl => (f.filledAt, pnl)).toList := by
  have hlot : OpenTrip.lot ((s.lots f.symbol).getD ⟨0, 0, none⟩) = abstract f.symbol := h.entry rfl f.symbol
  unfold roundTripFill
  generalize (s.lots f.symbol).getD ⟨0, 0, none⟩ = lot at hlot
  have hamount : lot.held = (abstract f.symbol).held := congrArg Lot.held hlot
  have hcost : lot.cost = (abstract f.symbol).cost := congrArg Lot.cost hlot
  cases hf : f.side with
  | buy =>
    obtain ⟨hnext, hnone⟩ := Lot.next_buy (l := abstract f.symbol) hf
    dsimp only
    rw [update_idem, hnone]
    refine ⟨h.update ?_, by simp⟩
    rw [hnext, ← hamount, ← hcost]
    rfl
  | sell =>
    dsimp only
    split
    · next hzero =>
      rw [hamount] at hzero
      obtain ⟨hnext, hnone⟩ := Lot.next_none hf hzero
      rw [hnone]
      exact ⟨h.update (hlot.trans hnext.symm), by simp⟩
    · next hpos =>
      rw [hamount] at hpos
      obtain ⟨hnext, hsome⟩ := Lot.next_sell (hheld f.symbol) hf hpos
      rw [update_idem, hsome]
      refine ⟨h.update ?_, ?_⟩
      · rw [hnext, ← hamount, ← hcost]
        rfl
      · simp [Trip.result, hamount, hcost]

theorem roundTrips_from (signalContext : Option String → Option String) {s : Trips}
    (h : Keeps OpenTrip.lot s.lots abstract) (hheld : ∀ symbol, (abstract symbol).Held) (fills : List Fill) :
    (fills.foldl (roundTripFill signalContext) s).trips.map Trip.result = s.trips.map Trip.result ++
      (matched abstract fills).filterMap fun p => p.2.map fun pnl => (p.1.filledAt, pnl) := by
  induction fills generalizing s abstract with
  | nil => simp [matched]
  | cons f fills ih =>
    obtain ⟨hk, htrips⟩ := roundTripFill_ok signalContext h hheld f
    rw [foldl_cons, ih hk (account_held hheld f), htrips, append_assoc]
    congr 1
    simp only [matched, filterMap_cons]
    cases (abstract f.symbol).realized f <;> rfl

theorem basisFill_ok (h : Keeps Basis.lot lots abstract)
    (hheld : ∀ symbol, (abstract symbol).Held) (f : Fill) :
    Keeps Basis.lot (basisFill lots f) (account abstract f) := by
  have hlot : Basis.lot ((lots f.symbol).getD ⟨0, 0, f.filledAt⟩) = abstract f.symbol := h.entry rfl f.symbol
  unfold basisFill
  generalize (lots f.symbol).getD ⟨0, 0, f.filledAt⟩ = state at hlot
  have hamount : state.held = (abstract f.symbol).held := congrArg Lot.held hlot
  have hcost : state.cost = (abstract f.symbol).cost := congrArg Lot.cost hlot
  cases hf : f.side with
  | buy =>
    apply h.update
    rw [(Lot.next_buy hf).1, ← hamount, ← hcost]
    rfl
  | sell =>
    dsimp only
    split
    · next hpos =>
      have hpos' : ¬ (abstract f.symbol).held ≤ 0 := by rw [← hamount]; exact not_le.mpr hpos
      apply h.update
      have hclamp := (hheld f.symbol).sell hpos' f
      rw [(Lot.next_sell (hheld f.symbol) hf hpos').1, max_eq_right hclamp, ← hamount, ← hcost]
      unfold Basis.lot
      rw [mul_comm]
    · next hzero =>
      have hzero' : (abstract f.symbol).held ≤ 0 := by rw [← hamount]; exact not_lt.mp hzero
      exact h.update (hlot.trans (Lot.next_none hf hzero').1.symm)

theorem basis_from (h : Keeps Basis.lot lots abstract)
    (hheld : ∀ symbol, (abstract symbol).Held) (fills : List Fill) :
    Keeps Basis.lot (fills.foldl basisFill lots) (fills.foldl account abstract) := by
  induction fills generalizing lots abstract with
  | nil => exact h
  | cons f fills ih => exact ih (basisFill_ok h hheld f) (account_held hheld f)

end Accounts

/-! ## Agreement -/

/-- The account of a new ledger. -/
def noLots : String → Lot := fun _ => .zero

theorem noLots_held (symbol : String) : (noLots symbol).Held := .inl ⟨rfl, rfl⟩

theorem keeps_none (lot : α → Lot) : Keeps lot (fun _ => none) noLots := fun _ => rfl

theorem matched_fst (lots : String → Lot) (fills : List Fill) : (matched lots fills).map Prod.fst = fills := by
  induction fills generalizing lots with
  | nil => rfl
  | cons f fills ih =>
    simp only [matched, List.map_cons, ih]

/-- The fills of a ledger, looked up by their ids, have the profits they are matched with. -/
theorem realized_map (ledger : Ledger) : ledger.rows.map (fun f => (realizedPnlForFill ledger.rows f.id).getD 0) =
    (matched noLots ledger.rows).map fun p => p.2.getD 0 := by
  have hids : ((matched noLots ledger.rows).map fun p => p.1.id).Nodup := by
    have hmap : ((matched noLots ledger.rows).map fun p => p.1.id) = ledger.rows.map Fill.id := by
      conv_rhs => rw [← matched_fst noLots ledger.rows]
      rw [List.map_map]
      rfl
    rw [hmap]
    exact ledger.nodup
  have hfind : ∀ l : List (Fill × Option ℚ), (l.map fun p => p.1.id).Nodup → ∀ p ∈ l,
      l.find? (fun q => q.1.id = p.1.id) = some p := by
    intro l hl p hp
    have hfound := (Durable.Table.find?_eq_some (t := ⟨l, hl⟩) (k := p.1.id) (a := p)).mpr ⟨hp, rfl⟩
    exact hfound
  conv_lhs => rw [← matched_fst noLots ledger.rows]
  rw [List.map_map]
  apply List.map_congr_left
  intro p hp
  have hpnl := realizedPnlFrom_eq (keeps_none id) noLots_held p.1.id ledger.rows
  rw [hfind _ hids p hp] at hpnl
  show ((realizedPnlForFill (List.map Prod.fst (matched noLots ledger.rows)) p.1.id).getD 0) = _
  rw [matched_fst]
  exact congrArg (fun x => Option.getD x 0) hpnl

/-- What the fills of some instants earned. -/
def profit (fills : List Fill) (counts : ℚ → Bool) : ℚ :=
  realizedSum ((matched noLots fills).filter fun p => counts p.1.filledAt)

theorem sum_filter_of_zero {l : List α} {p : α → Bool} {g : α → ℚ} (h : ∀ a ∈ l, p a = false → g a = 0) :
    ((l.filter p).map g).sum = (l.map g).sum := by
  induction l with
  | nil => rfl
  | cons a l ih =>
    have ih := ih fun b hb => h b (List.mem_cons_of_mem _ hb)
    cases hp : p a with
    | true => rw [List.filter_cons_of_pos hp, List.map_cons, List.sum_cons, List.map_cons, List.sum_cons, ih]
    | false =>
      rw [List.filter_cons_of_neg (by simp [hp]), List.map_cons, List.sum_cons, h a List.mem_cons_self hp, zero_add, ih]

theorem matched_buy {p : Fill × Option ℚ} (hp : p ∈ matched lots fills)
    (hbuy : p.1.side = .buy) : p.2 = none := by
  induction fills generalizing lots with
  | nil => cases hp
  | cons f fills ih =>
    rcases mem_cons.mp hp with rfl | hp
    · exact (Lot.next_buy hbuy).2
    · exact ih hp

theorem performanceTotals_profit (fills : List Fill) (dayStart : ℚ) :
    (performanceTotals dayStart fills).realizedTotal = profit fills (fun _ => true) ∧
      (performanceTotals dayStart fills).realizedToday = profit fills (fun t => dayStart ≤ t) := by
  obtain ⟨-, htotal, htoday⟩ := performanceTotals_from dayStart (s := ⟨fun _ => none, 0, 0⟩)
    (keeps_none id) noLots_held fills
  constructor
  · rw [performanceTotals, htotal, zero_add, profit, List.filter_true]
  · rw [performanceTotals, htoday, zero_add, profit]

/-- The profits of the sells, each asked for by its id, add up. -/
theorem sells_profit (ledger : Ledger) (counts : ℚ → Bool) :
    ((ledger.rows.filter fun f => f.side = .sell && counts f.filledAt).map fun f =>
      (realizedPnlForFill ledger.rows f.id).getD 0).sum = profit ledger.rows counts := by
  have hmap := realized_map ledger
  have hpairs : ∀ q : Fill → Bool, (ledger.rows.filter q).map (fun f => (realizedPnlForFill ledger.rows f.id).getD 0) =
      ((matched noLots ledger.rows).filter fun p => q p.1).map fun p => p.2.getD 0 := by
    intro q
    have hzip : ∀ l : List (Fill × Option ℚ), (l.map Prod.fst).map (fun f => (realizedPnlForFill ledger.rows f.id).getD 0) =
        l.map (fun p => p.2.getD 0) → ((l.map Prod.fst).filter q).map (fun f => (realizedPnlForFill ledger.rows f.id).getD 0) =
        (l.filter fun p => q p.1).map fun p => p.2.getD 0 := by
      intro l
      induction l with
      | nil => exact fun _ => rfl
      | cons p l ih =>
        intro h
        simp only [List.map_cons, List.cons.injEq] at h
        by_cases hq : q p.1 = true
        · simp [hq, ih h.2, h.1]
        · simp [hq, ih h.2]
    have := hzip (matched noLots ledger.rows) (by rw [matched_fst]; exact hmap)
    rw [matched_fst] at this
    exact this
  rw [hpairs, profit, realizedSum]
  rw [← List.filter_filter]
  apply sum_filter_of_zero
  intro p hp hside
  have hbuy : p.1.side = .buy := by
    cases hs : p.1.side with
    | buy => rfl
    | sell => simp [hs] at hside
  rw [matched_buy (List.mem_of_mem_filter hp) hbuy]
  rfl

/-- The round trips add up to the profits, whatever order they are shown in. -/
theorem trips_profit (signalContext : Option String → Option String) (fills : List Fill) {limit : Nat}
    (hlimit : fills.length ≤ limit) (counts : ℚ → Bool) :
    (((buildRoundTrips signalContext fills limit).filter fun t => counts t.closedAt).map Trip.realized).sum =
      profit fills counts := by
  have htrips := roundTrips_from signalContext (s := ⟨fun _ => none, []⟩)
    (keeps_none OpenTrip.lot) noLots_held fills
  unfold buildRoundTrips
  generalize (fills.foldl (roundTripFill signalContext) ⟨fun _ => none, []⟩).trips = trips at htrips
  have hlength : trips.length ≤ limit := by
    have hlen := congrArg List.length htrips
    rw [List.length_map] at hlen
    rw [hlen]
    apply le_trans (List.length_filterMap_le _ _)
    have hmatched : (matched noLots fills).length = fills.length := by
      conv_rhs => rw [← matched_fst noLots fills]
      rw [List.length_map]
    rw [hmatched]
    exact hlimit
  have hperm : ((trips.insertionSort fun a b => b.closedAt ≤ a.closedAt).take limit).Perm trips := by
    rw [List.take_of_length_le (by rw [List.length_insertionSort]; exact hlength)]
    exact List.perm_insertionSort _ _
  rw [((hperm.filter _).map _).sum_eq]
  have hresult : ∀ (l : List Trip) (m : List (Fill × Option ℚ)),
      l.map Trip.result = m.filterMap (fun p => p.2.map fun pnl => (p.1.filledAt, pnl)) →
        ((l.filter fun t => counts t.closedAt).map Trip.realized).sum =
          realizedSum (m.filter fun p => counts p.1.filledAt) := by
    intro l m h
    have hleft : (l.filter fun t => counts t.closedAt).map Trip.realized =
        ((l.map Trip.result).filter fun r => counts r.1).map Prod.snd := by
      rw [List.filter_map, List.map_map]
      rfl
    rw [hleft, h]
    clear h hleft l
    unfold realizedSum
    induction m with
    | nil => rfl
    | cons p m ih =>
      obtain ⟨f, pnl⟩ := p
      cases pnl with
      | none =>
        by_cases hc : counts f.filledAt = true
        · simp [hc, ih]
        · simp [hc, ih]
      | some pnl =>
        by_cases hc : counts f.filledAt = true
        · simp [hc, ih]
        · simp [hc, ih]
  exact hresult trips (matched noLots fills) htrips

/-! ## Cost bases -/

def lotsOf (fills : List Fill) : String → Lot := fills.foldl account noLots

theorem lotsOf_held (fills : List Fill) (symbol : String) : (lotsOf fills symbol).Held :=
  foldl_account_held noLots_held fills symbol

theorem positionCostBasis_eq (fills : List Fill) (symbol : String) :
    (positionCostBasis fills symbol).map (fun b => (b.amount, b.average)) =
      if 0 < (lotsOf fills symbol).held then
        some ((lotsOf fills symbol).held, (lotsOf fills symbol).cost / (lotsOf fills symbol).held)
      else none := by
  have hkeeps := basis_from (keeps_none Basis.lot) noLots_held fills symbol
  rw [← lotsOf] at hkeeps
  unfold positionCostBasis
  cases hb : (fills.foldl basisFill fun _ => none) symbol with
  | none =>
    rw [hb] at hkeeps
    rw [← hkeeps]
    rfl
  | some b =>
    rw [hb] at hkeeps
    rw [← hkeeps]
    show ((if 0 < b.held then some (⟨b.held, b.cost / b.held, b.openedAt⟩ : CostBasis) else none).map _) =
      if 0 < b.held then some (b.held, b.cost / b.held) else none
    split
    · rfl
    · rfl

/-- The average cost that is shown is that of the ledger. -/
theorem positionRow_avgCost (fills : List Fill) (dayStart : ℚ) (prices : String → Option ℚ) (symbol : String) (amount : ℚ) :
    (positionRow (performanceTotals dayStart fills).lots prices symbol amount).avgCost =
      (positionCostBasis fills symbol).map CostBasis.average := by
  have hbasis : (positionCostBasis fills symbol).map CostBasis.average =
      ((positionCostBasis fills symbol).map fun b => (b.amount, b.average)).map Prod.snd := by
    rw [Option.map_map]
    rfl
  obtain ⟨hkeeps, -⟩ := performanceTotals_from dayStart (s := ⟨fun _ => none, 0, 0⟩)
    (keeps_none id) noLots_held fills
  have hlot := hkeeps symbol
  rw [← lotsOf, ← performanceTotals] at hlot
  have hheld := lotsOf_held fills symbol
  rw [hbasis, positionCostBasis_eq]
  unfold positionRow
  cases hl : (performanceTotals dayStart fills).lots symbol with
  | none =>
    rw [hl] at hlot
    rw [← hlot]
    simp [Lot.zero]
  | some l =>
    rw [hl] at hlot
    have hl' : l = lotsOf fills symbol := hlot
    rw [← hl'] at hheld ⊢
    rcases hheld with ⟨h, hc⟩ | ⟨h, hc⟩
    · simp [h, hc]
    · simp [h, hc]

/-! ## Cash -/

/-- No sell exceeds what is held when it comes. -/
def NoOversell (fills : List Fill) : Prop :=
  ∀ earlier f later, fills = earlier ++ f :: later → f.side = .sell →
    f.amount ≤ ((positionCostBasis earlier f.symbol).map CostBasis.amount).getD 0

def Covered : (String → Lot) → List Fill → Prop
  | _, [] => True
  | lots, f :: fills => (f.side = .sell → f.amount ≤ (lots f.symbol).held) ∧ Covered (account lots f) fills

theorem heldAmount_eq (fills : List Fill) (symbol : String) :
    ((positionCostBasis fills symbol).map CostBasis.amount).getD 0 = (lotsOf fills symbol).held := by
  have hmap : (positionCostBasis fills symbol).map CostBasis.amount =
      ((positionCostBasis fills symbol).map fun b => (b.amount, b.average)).map Prod.fst := by
    rw [Option.map_map]
    rfl
  rw [hmap, positionCostBasis_eq]
  rcases lotsOf_held fills symbol with ⟨h, -⟩ | ⟨h, -⟩
  · rw [h]
    rfl
  · rw [if_pos h]
    rfl

theorem NoOversell.covered (h : NoOversell fills) : Covered noLots fills := by
  have hfrom : ∀ (earlier later : List Fill), fills = earlier ++ later → Covered (lotsOf earlier) later := by
    intro earlier later
    induction later generalizing earlier with
    | nil => exact fun _ => trivial
    | cons f later ih =>
      intro heq
      refine ⟨fun hside => ?_, ?_⟩
      · rw [← heldAmount_eq]
        exact h earlier f later heq hside
      · have hnext := ih (earlier ++ [f]) (by rw [heq]; simp)
        unfold lotsOf at hnext
        rw [foldl_append] at hnext
        exact hnext
  exact hfrom [] fills rfl

/-- What a fill brings in. -/
def Fill.cash (f : Fill) : ℚ :=
  match f.side with
  | .buy => -(f.amount * f.price)
  | .sell => f.amount * f.price

theorem sum_account {symbols : Finset String} (hf : f.symbol ∈ symbols) (lots : String → Lot) :
    ∑ s ∈ symbols, (account lots f s).cost =
      ∑ s ∈ symbols, (lots s).cost - (lots f.symbol).cost + ((lots f.symbol).next f).cost := by
  have hrest : ∑ s ∈ symbols.erase f.symbol, (account lots f s).cost = ∑ s ∈ symbols.erase f.symbol, (lots s).cost := by
    apply sum_congr rfl
    intro s hs
    unfold account
    rw [update_of_ne (ne_of_mem_erase hs)]
  have hself : (account lots f f.symbol).cost = ((lots f.symbol).next f).cost := by
    unfold account
    rw [update_self]
  rw [← add_sum_erase symbols _ hf, ← add_sum_erase symbols (fun s => (lots s).cost) hf, hrest, hself]
  ring

/-- Profits and costs account for all the cash. -/
theorem realizedSum_cash (symbols : Finset String)
    (hfills : ∀ f ∈ fills, f.symbol ∈ symbols) (hcovered : Covered lots fills) :
    realizedSum (matched lots fills) + ∑ s ∈ symbols, (lots s).cost =
      (fills.map Fill.cash).sum + ∑ s ∈ symbols, (fills.foldl account lots s).cost := by
  induction fills generalizing lots with
  | nil => simp [matched, realizedSum]
  | cons f fills ih =>
    obtain ⟨hsell, hcovered⟩ := hcovered
    have ih := ih (fun g hg => hfills g (List.mem_cons_of_mem _ hg)) hcovered
    have hsum := sum_account (hfills f List.mem_cons_self) lots
    have hstep : ((lots f.symbol).realized f).getD 0 + (lots f.symbol).cost = f.cash + ((lots f.symbol).next f).cost := by
      unfold Fill.cash Lot.realized Lot.next
      cases hf : f.side with
      | buy =>
        simp only [getD_none]
        ring
      | sell =>
        have hle := hsell hf
        have hpos : ¬ (lots f.symbol).held ≤ 0 := by
          have := f.amount_pos
          exact not_le.mpr (by linarith)
        simp only [if_neg hpos, getD_some, min_eq_left hle]
        ring
    rw [List.foldl_cons, List.map_cons, List.sum_cons]
    have hhead : realizedSum (matched lots (f :: fills)) =
        ((lots f.symbol).realized f).getD 0 + realizedSum (matched (account lots f) fills) := by
      simp [matched, realizedSum]
    linarith

/-- What the open positions of the ledger are worth at the prices, and what they cost. -/
def marketValue (fills : List Fill) (price : String → ℚ) : ℚ :=
  ∑ s ∈ (fills.map Fill.symbol).toFinset, ((positionCostBasis fills s).map fun b => b.amount * price s).getD 0

def unrealizedValue (fills : List Fill) (price : String → ℚ) : ℚ :=
  ∑ s ∈ (fills.map Fill.symbol).toFinset,
    ((positionCostBasis fills s).map fun b => b.amount * price s - b.amount * b.average).getD 0

theorem unrealizedValue_eq (fills : List Fill) (price : String → ℚ) : unrealizedValue fills price =
    marketValue fills price - ∑ s ∈ (fills.map Fill.symbol).toFinset, (lotsOf fills s).cost := by
  unfold unrealizedValue marketValue
  rw [← sum_sub_distrib]
  apply sum_congr rfl
  intro s _
  have hbasis := positionCostBasis_eq fills s
  rcases lotsOf_held fills s with ⟨h, hc⟩ | ⟨h, hc⟩
  · rw [h, if_neg (lt_irrefl 0), map_eq_none_iff] at hbasis
    rw [hbasis, hc]
    simp
  · rw [if_pos h] at hbasis
    obtain ⟨b, hb, heq⟩ := map_eq_some_iff.mp hbasis
    have hamount : b.amount = (lotsOf fills s).held := congrArg Prod.fst heq
    have haverage : b.average = (lotsOf fills s).cost / (lotsOf fills s).held := congrArg Prod.snd heq
    rw [hb]
    simp only [map_some, getD_some, hamount, haverage]
    rw [mul_div_cancel₀ _ h.ne']

/-- **One average cost.** The total and today's profit of the performance are the sums of the profits of the sells, and
of the round trips; the average cost shown for a position is that of the ledger; and without an oversell, profits and
open positions account for all the cash. -/
theorem average_cost_agree (ledger : Ledger) (signalContext : Option String → Option String) (limit : Nat)
    (hlimit : ledger.rows.length ≤ limit) (capital : Option ℚ) (positions : List (String × Option ℚ))
    (prices : String → Option ℚ) (dayStart : ℚ) :
    (buildPerformance ledger.rows capital positions prices dayStart).realizedTotal =
      ((ledger.rows.filter fun f => f.side = .sell).map fun f => (realizedPnlForFill ledger.rows f.id).getD 0).sum ∧
    (buildPerformance ledger.rows capital positions prices dayStart).realizedTotal =
      ((buildRoundTrips signalContext ledger.rows limit).map Trip.realized).sum ∧
    (buildPerformance ledger.rows capital positions prices dayStart).todayRealizedPnl =
      ((ledger.rows.filter fun f => f.side = .sell && dayStart ≤ f.filledAt).map fun f =>
        (realizedPnlForFill ledger.rows f.id).getD 0).sum ∧
    (buildPerformance ledger.rows capital positions prices dayStart).todayRealizedPnl =
      (((buildRoundTrips signalContext ledger.rows limit).filter fun t => dayStart ≤ t.closedAt).map Trip.realized).sum ∧
    (∀ row ∈ (buildPerformance ledger.rows capital positions prices dayStart).positions,
      row.avgCost = (positionCostBasis ledger.rows row.symbol).map CostBasis.average) ∧
    (NoOversell ledger.rows → ∀ price : String → ℚ,
      (buildPerformance ledger.rows capital positions prices dayStart).realizedTotal + unrealizedValue ledger.rows price =
        ((ledger.rows.filter fun f => f.side = .sell).map fun f => f.amount * f.price).sum -
          ((ledger.rows.filter fun f => f.side = .buy).map fun f => f.amount * f.price).sum +
            marketValue ledger.rows price) := by
  obtain ⟨htotal, htoday⟩ := performanceTotals_profit ledger.rows dayStart
  have hshow : (buildPerformance ledger.rows capital positions prices dayStart).realizedTotal =
      profit ledger.rows fun _ => true := htotal
  have hshow' : (buildPerformance ledger.rows capital positions prices dayStart).todayRealizedPnl =
      profit ledger.rows fun t => dayStart ≤ t := htoday
  refine ⟨?_, ?_, ?_, ?_, ?_, ?_⟩
  · rw [hshow, ← sells_profit]
    simp
  · rw [hshow, ← trips_profit signalContext ledger.rows hlimit]
    simp
  · rw [hshow', ← sells_profit]
  · rw [hshow', ← trips_profit signalContext ledger.rows hlimit]
  · intro row hrow
    unfold buildPerformance at hrow
    rw [List.mem_insertionSort, List.mem_filterMap] at hrow
    obtain ⟨p, -, hp⟩ := hrow
    obtain ⟨amount, -, rfl⟩ := map_eq_some_iff.mp hp
    exact positionRow_avgCost ledger.rows dayStart prices p.1 amount
  · intro hcovered price
    have hcash := realizedSum_cash (ledger.rows.map Fill.symbol).toFinset
      (fun f hf => List.mem_toFinset.mpr (List.mem_map_of_mem hf)) hcovered.covered
    have hnone : ∑ s ∈ (ledger.rows.map Fill.symbol).toFinset, (noLots s).cost = 0 := Finset.sum_const_zero
    have hflow : (ledger.rows.map Fill.cash).sum =
        ((ledger.rows.filter fun f => f.side = .sell).map fun f => f.amount * f.price).sum -
          ((ledger.rows.filter fun f => f.side = .buy).map fun f => f.amount * f.price).sum := by
      generalize ledger.rows = fills
      induction fills with
      | nil => simp
      | cons f fills ih =>
        rw [List.map_cons, List.sum_cons, ih]
        unfold Fill.cash
        cases hf : f.side with
        | buy =>
          simp [hf]
          ring
        | sell =>
          simp [hf]
          ring
    rw [hshow, profit, List.filter_true, unrealizedValue_eq, ← hflow]
    unfold lotsOf
    linarith

/-- Two units are bought and one of them is sold. -/
def halfSold : Ledger where
  rows := [⟨"paper:1", "BTC/JPY", .buy, 2, 100, 1000, "momentum", none, "s1", pos_two, pos_hundred⟩,
    ⟨"paper:2", "BTC/JPY", .sell, 1, 110, 2000, "take_profit", none, "s1", pos_one, by norm_num⟩]
  nodup := by decide

theorem average_cost_halfSold :
    (buildPerformance halfSold.rows (some 1000) [("BTC/JPY", some 1)] (fun _ => some 120) 0).realizedTotal = 10 ∧
    (buildPerformance halfSold.rows (some 1000) [("BTC/JPY", some 1)] (fun _ => some 120) 0).realizedTotal =
      ((buildRoundTrips id halfSold.rows 8).map Trip.realized).sum := by
  have hagree := average_cost_agree halfSold id 8 (by decide) (some 1000) [("BTC/JPY", some 1)] (fun _ => some 120) 0
  exact ⟨by decide +kernel, hagree.2.1⟩

end Docich.Trading
