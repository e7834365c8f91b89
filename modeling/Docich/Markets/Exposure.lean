import Docich.Markets.Accounting

/-!
# Limits at an entry

`entries` are the positions that a tick opens, each with the accounts before and after it. An entry keeps the limits
(`WithinLimits`) exactly when it is long, or short with a quantity that fits at the ask (`EntryFits`): a short is sized
at the bid it is sold at, and is marked at the ask it would be bought back at.
-/

namespace Docich.Markets

open Durable List

/-! ## Entries -/

structure Entry where
  context : Context
  quote : ValidQuote
  before : Account
  position : Position
  after : Account

/-- The position that the quote opened, if it opened one. -/
def entryOf (c : Context) (q : ValidQuote) (s s' : Account) : Option Entry :=
  match s.positions.find? q.symbol, s'.positions.find? q.symbol with
  | none, some p => some ⟨c, q, s, p, s'⟩
  | _, _ => none

def entriesAll (c : Context) : List ValidQuote → Account → Book → List Entry
  | [], _, _ => []
  | q :: quotes, s, b =>
    match handle c q s b with
    | (b', .ok s') => (entryOf c q s s').toList ++ entriesAll c quotes s' b'
    | (_, .error _) => []

/-- The entries of a call: of none, when the call is turned down or the tick is known. -/
def entries (h : Host) (market : Market) (limits : Limits) (b : Book) (call : Call) : List Entry :=
  match context h market limits call with
  | .error _ => []
  | .ok c =>
    if (b.ticks.find? c.tickId).isSome ∨ c.now < b.account.lastTs then
      []
    else
      let c := freshContext c b.account
      entriesAll c c.valid (openTick c b.account) b

/-- The account's equity just before the entry, at the marks of the tick. -/
def Entry.equity (e : Entry) : ℚ :=
  e.before.cash + unrealized e.context.limits (markAll e.context.valid e.before.positions)

structure Entry.WithinLimits (e : Entry) : Prop where
  deployed : deployed e.after.positions ≤ e.context.limits.allocation * e.equity
  position : e.position.value ≤ e.context.limits.positionFraction * e.equity
  count : e.after.positions.rows.length ≤ e.context.limits.maxPositions

/-- The lots that the account has room for at the bid cost no more than that room at the ask. -/
def shortFits (c : Context) (q : ValidQuote) (s : Account) : Prop :=
  let equity := s.cash + unrealized c.limits (markAll c.valid s.positions)
  let used := deployed (markAll c.valid s.positions)
  entryQty c q .short (entryRoom c s (max 0 equity) used) * q.ask ≤
    min (equity * c.limits.positionFraction) (equity * c.limits.allocation - used)

/-- The signal is long, or the short fits. -/
def EntryFits (c : Context) (q : ValidQuote) (s : Account) : Prop :=
  signal (historyWith q (s.history q.symbol)) c.policy = some .long ∨ shortFits c q s

theorem mem_entriesAll {c : Context} {e : Entry} {quotes : List ValidQuote} {s : Account} {b : Book}
    (h : e ∈ entriesAll c quotes s b) : e.context = c ∧ ∃ b₁ b₂ direction,
      Opened c e.quote direction (observeHistory e.quote e.before) b₁ e.position e.after b₂ := by
  induction quotes generalizing s b with
  | nil => cases h
  | cons q quotes ih =>
    unfold entriesAll at h
    split at h
    · next b' s' hq =>
      rcases mem_append.mp h with h | h
      · rw [Option.mem_toList] at h
        unfold entryOf at h
        split at h
        · next p hnone hsome =>
          cases h
          refine ⟨rfl, b, b', ?_⟩
          cases handle_ok hq with
          | kept hk =>
            have hheld := hk.held q.symbol
            rw [hsome, show (observeHistory q s).positions.find? q.symbol = none from hnone] at hheld
            cases hheld
          | closed hc =>
            obtain ⟨p₀, hp₀, -⟩ := hc.found
            rw [show (observeHistory q s).positions.find? q.symbol = none from hnone] at hp₀
            cases hp₀
          | @opened direction p' _ _ ho =>
            refine ⟨direction, ?_⟩
            rw [ho.positions, Table.find?_upsert, if_pos ho.symbol.symm] at hsome
            cases hsome
            exact ho
        · cases h
      · exact ih h
    · cases h

/-! ## Sizes -/

section Opened

variable {c : Context} {q : ValidQuote} {direction : Side} {p : Position} {s s' : Account} {b b' : Book}

theorem unitCost_pos (c : Context) (q : ValidQuote) (direction : Side) : 0 < unitCost c q direction := by
  have hprice : 0 < q.entryPrice direction := by
    cases direction with
    | long => exact lt_of_lt_of_le q.bid_pos q.bid_le_ask
    | short => exact q.bid_pos
  have hfee : 0 ≤ c.limits.feeBps / 10000 := div_nonneg c.limits.feeBps_nonneg (by norm_num)
  apply mul_pos
  · exact lt_of_lt_of_le hprice (le_max_left _ _)
  · linarith

/-- An entry's lots cost no more than its room. -/
theorem entryQty_cost (c : Context) (q : ValidQuote) (direction : Side) (room : ℚ) :
    entryQty c q direction room * unitCost c q direction ≤ room := by
  have hlot : (0 : ℚ) < c.limits.lot := by exact_mod_cast c.limits.lot_pos
  have hunit := unitCost_pos c q direction
  have hqty : entryQty c q direction room ≤ room / unitCost c q direction :=
    le_trans (roundDown_le hlot _) (min_le_left _ _)
  exact (le_div_iff₀ hunit).mp hqty

theorem entryRoom_le (c : Context) (s : Account) (equity used : ℚ) :
    entryRoom c s equity used ≤ min (equity * c.limits.positionFraction) (equity * c.limits.allocation - used) := by
  unfold entryRoom
  split
  · exact min_le_left _ _
  · exact le_rfl

/-- The ask of a long is within the unit cost that it was sized with. -/
theorem ask_le_unitCost (c : Context) (q : ValidQuote) : q.ask ≤ unitCost c q .long := by
  have hask : 0 < q.ask := lt_of_lt_of_le q.bid_pos q.bid_le_ask
  have hfee : 0 ≤ c.limits.feeBps / 10000 := div_nonneg c.limits.feeBps_nonneg (by norm_num)
  calc q.ask ≤ max q.ask (fillPrice c q .long) := le_max_left _ _
    _ ≤ max q.ask (fillPrice c q .long) * (1 + c.limits.feeBps / 10000) :=
      le_mul_of_one_le_right (le_trans hask.le (le_max_left _ _)) (by linarith)

variable (h : Opened c q direction s b p s' b')

include h

/-- An account that opens a position has equity, and the cost of the position is within its room. -/
theorem Opened.equity_pos :
    0 < s.cash + unrealized c.limits (markAll c.valid s.positions) ∧
      p.qty * unitCost c q direction ≤
        min ((s.cash + unrealized c.limits (markAll c.valid s.positions)) * c.limits.positionFraction)
          ((s.cash + unrealized c.limits (markAll c.valid s.positions)) * c.limits.allocation -
            deployed (markAll c.valid s.positions)) := by
  have hqty := h.qty
  generalize s.cash + unrealized c.limits (markAll c.valid s.positions) = equity at hqty ⊢
  generalize deployed (markAll c.valid s.positions) = used at hqty ⊢
  have hcost := entryQty_cost c q direction (entryRoom c s (max 0 equity) used)
  rw [← hqty] at hcost
  have hroom := le_trans hcost (entryRoom_le c s (max 0 equity) used)
  have hpos : 0 < equity := by
    by_contra hneg
    have hle := lt_of_lt_of_le (mul_pos h.qty_pos (unitCost_pos c q direction)) (le_trans hroom (min_le_left _ _))
    rw [max_eq_left (not_lt.mp hneg), zero_mul] at hle
    exact lt_irrefl 0 hle
  rw [max_eq_right hpos.le] at hroom
  exact ⟨hpos, hroom⟩

theorem Opened.deployed_after :
    deployed s'.positions = deployed (markAll c.valid s.positions) + p.value := by
  unfold deployed
  rw [h.positions, Table.sum_upsert, h.new_marked]
  simp

theorem Opened.count :
    s'.positions.rows.length ≤ c.limits.maxPositions := by
  have hnone : (markAll c.valid s.positions).find? p.symbol = none := h.new_marked
  have hlength : (markAll c.valid s.positions).rows.length = s.positions.rows.length := by
    exact length_map _
  have hmay := h.may
  unfold mayEnter at hmay
  simp only [Bool.and_eq_true, decide_eq_true_eq] at hmay
  rw [h.positions, Table.upsert_new hnone, length_append, hlength, length_singleton]
  omega

end Opened

/-! ## The limits -/

section Entry

variable {e : Entry} {direction : Side} {b b' : Book}

variable (h : Opened e.context e.quote direction (observeHistory e.quote e.before) b e.position e.after b')

include h

/-- An entry keeps the limits when its value fits into its room. -/
theorem Entry.within_iff :
    e.WithinLimits ↔ e.position.value ≤ min (e.equity * e.context.limits.positionFraction)
      (e.equity * e.context.limits.allocation - deployed (markAll e.context.valid e.before.positions)) := by
  have hdeployed : deployed e.after.positions =
      deployed (markAll e.context.valid e.before.positions) + e.position.value := h.deployed_after
  constructor
  · intro hw
    have h1 := hw.deployed
    have h2 := hw.position
    apply le_min
    · linarith
    · linarith
  · intro hle
    have h1 := le_trans hle (min_le_left _ _)
    have h2 := le_trans hle (min_le_right _ _)
    constructor
    · rw [hdeployed]
      linarith
    · linarith
    · exact h.count

theorem Entry.signaled :
    signal (historyWith e.quote (e.before.history e.quote.symbol)) e.context.policy = some direction := by
  have hs := h.signaled
  unfold observeHistory at hs
  dsimp only at hs
  rw [Function.update_self] at hs
  exact hs

theorem Entry.fits_iff :
    e.WithinLimits ↔ EntryFits e.context e.quote e.before := by
  rw [Entry.within_iff h]
  have hsignal := Entry.signaled h
  have hvalue : e.position.value = e.position.qty * e.quote.markPrice direction := by
    unfold Position.value
    rw [h.mark]
  unfold EntryFits
  rw [hsignal, hvalue]
  cases direction with
  | long =>
    -- A long is marked at the bid, below the ask it was sized at.
    have hbid : e.quote.bid ≤ unitCost e.context e.quote .long :=
      le_trans e.quote.bid_le_ask (ask_le_unitCost e.context e.quote)
    have hfits : e.position.qty * e.quote.bid ≤ min (e.equity * e.context.limits.positionFraction)
        (e.equity * e.context.limits.allocation - deployed (markAll e.context.valid e.before.positions)) :=
      le_trans (mul_le_mul_of_nonneg_left hbid h.qty_pos.le) h.equity_pos.2
    exact ⟨fun _ => .inl rfl, fun _ => hfits⟩
  | short =>
    have hqty := h.qty
    rw [hqty]
    constructor
    · exact fun hle => .inr hle
    · rintro (hlong | hle)
      · cases hlong
      · exact hle

end Entry

theorem mem_entries {h : Host} {market : Market} {limits : Limits} {b : Book} {call : Call} {e : Entry}
    (he : e ∈ entries h market limits b call) : ∃ b₁ b₂ direction,
      Opened e.context e.quote direction (observeHistory e.quote e.before) b₁ e.position e.after b₂ := by
  unfold entries at he
  split at he
  · cases he
  · split at he
    · cases he
    · obtain ⟨hc, hopened⟩ := mem_entriesAll he
      rw [hc]
      exact hopened

/-- The third quote sells 9999 units at 10000, a tenth of the equity; at the ask of 10029 they are worth more. -/
def shortEntries : List Entry :=
  entries plainHost .fx plainLimits (after plainHost .fx plainLimits (.new plainLimits) (fallingCalls.take 2))
    (plainCall 1002 "10000" "10029" false)

theorem shortEntries_ne : shortEntries ≠ [] := by
  intro hnil
  have hlength : shortEntries.length = 1 := by decide +kernel
  rw [hnil] at hlength
  cases hlength

end Docich.Markets
