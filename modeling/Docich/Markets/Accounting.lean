import Docich.Markets.Effects

/-!
# The accounting identity

In every book that calls lead to, the cash is the capital, plus what the stored closes netted, less what the open
positions carry (`Balanced`), and the fills of a symbol open and close in turn, each close with the side and the
quantity of its open (`Paired`).
-/

namespace Docich.Markets

open Durable Table

/-! ## The identity -/

def Fill.netPnl (f : Fill) : ℚ := (f.close.map CloseDetails.netPnlJpy).getD 0

structure Balanced (capital : ℚ) (s : Account) (fills : Table Fill.id) : Prop where
  cash : s.cash = capital + fills.sum Fill.netPnl - s.positions.sum Position.carried

/-- Opens and closes in turn; what is open at the end is given. -/
inductive Alternating : List Fill → Option (Side × ℚ) → Prop
  | nil : Alternating [] none
  | opened {fills : List Fill} {f : Fill} (h : Alternating fills none) (hf : f.close = none) :
      Alternating (fills ++ [f]) (some (f.side, f.qty))
  | closed {fills : List Fill} {f : Fill} (h : Alternating fills (some (f.side, f.qty))) (hf : f.close ≠ none) :
      Alternating (fills ++ [f]) none

def fillsOf (fills : Table Fill.id) (symbol : String) : List Fill := fills.rows.filter fun f => f.symbol = symbol

def Paired (s : Account) (fills : Table Fill.id) : Prop :=
  ∀ symbol, Alternating (fillsOf fills symbol) ((s.positions.find? symbol).map Position.held)

theorem fillsOf_insert {fills t : Table Fill.id} {f : Fill} (h : fills.insert? f = some t) (symbol : String) :
    fillsOf t symbol = fillsOf fills symbol ++ if f.symbol = symbol then [f] else [] := by
  unfold fillsOf
  rw [(Table.insert?_eq_some h).1, List.filter_append]
  by_cases hs : f.symbol = symbol
  · simp [hs]
  · simp [hs]

/-! ## One quote -/

section Handled

variable {capital : ℚ} {c : Context} {q : ValidQuote} {direction : Side} {p : Position} {s s' : Account}
  {b b' : Book} {fills : Table Fill.id}

theorem SameBooks.balanced (h : SameBooks s s') (hs : Balanced capital s fills) : Balanced capital s' fills := by
  have hcash := hs.cash
  have hworth := h.worth
  constructor
  linarith

theorem SameBooks.paired (h : SameBooks s s') (hs : Paired s fills) : Paired s' fills := by
  intro symbol
  rw [h.held]
  exact hs symbol

variable (h : Closed c q s b p s' b')

include h

/-- The position that is closed is the one that was found, up to its exit state. -/
theorem Closed.same : SamePositions s.positions (s.positions.upsert p) ∧
    p.symbol = q.symbol ∧ (s.positions.find? q.symbol).map Position.held = some p.held := by
  obtain ⟨p₀, hp, hsymbol, hentry⟩ := h.found
  have hps : p.symbol = q.symbol := by rw [hentry]; exact hsymbol
  have hheld : p.held = p₀.held := by rw [hentry]; rfl
  exact ⟨samePositions_upsert (by rw [hsymbol]; exact hp) hentry, hps, by rw [hp, Option.map_some, hheld]⟩

theorem Closed.balanced (hs : Balanced capital s b.fills) :
    Balanced capital s' b'.fills := by
  obtain ⟨hsame, -, -⟩ := h.same
  obtain ⟨reason, netPnl, price, fee, details, hfill, hcash⟩ := h.fill
  have hnet : b'.fills.sum Fill.netPnl = b.fills.sum Fill.netPnl + netPnl := sum_insert hfill
  have hcarried : s'.positions.sum Position.carried = s.positions.sum Position.carried - p.carried := by
    rw [h.positions, sum_delete, hsame.carried, Table.find?_upsert, if_pos rfl]
    rfl
  constructor
  rw [hcash, hnet, hcarried, hs.cash]
  ring

theorem Closed.paired (hs : Paired s b.fills) : Paired s' b'.fills := by
  obtain ⟨hsame, hsymbol, hheld⟩ := h.same
  obtain ⟨reason, netPnl, price, fee, details, hfill, -⟩ := h.fill
  intro symbol
  have hold := hs symbol
  rw [fillsOf_insert hfill, h.positions, Table.find?_delete]
  have hrow : (closeFill c p reason netPnl price fee details).symbol = p.symbol := rfl
  rw [hrow]
  by_cases hps : p.symbol = symbol
  · rw [if_pos hps, if_pos hps.symm]
    rw [← hps, hsymbol, hheld] at hold
    rw [← hps, hsymbol]
    apply Alternating.closed
    · exact hold
    · intro hnone
      cases hnone
  · rw [if_neg hps, if_neg (fun he => hps he.symm), List.append_nil, hsame.held]
    exact hold

omit h

theorem Opened.balanced (h : Opened c q direction s b p s' b') (hs : Balanced capital s b.fills) :
    Balanced capital s' b'.fills := by
  have hmark := samePositions_markAll c.valid s.positions
  have hnet : b'.fills.sum Fill.netPnl = b.fills.sum Fill.netPnl := by
    rw [sum_insert h.fill]
    exact add_zero _
  have hcarried : s'.positions.sum Position.carried = s.positions.sum Position.carried + p.entryFee := by
    rw [h.positions, sum_upsert, hmark.carried, h.new_marked]
    unfold Position.carried
    rw [h.financing]
    simp
  constructor
  rw [h.cash, hnet, hcarried, hs.cash]
  ring

theorem Opened.paired (h : Opened c q direction s b p s' b') (hs : Paired s b.fills) : Paired s' b'.fills := by
  have hmark := samePositions_markAll c.valid s.positions
  intro symbol
  have hold := hs symbol
  rw [fillsOf_insert h.fill, h.positions, Table.find?_upsert]
  have hrow : (openFill c p).symbol = p.symbol := rfl
  rw [hrow]
  by_cases hps : p.symbol = symbol
  · rw [if_pos hps, if_pos hps.symm]
    rw [← hps, h.symbol, h.new, Option.map_none] at hold
    rw [← hps, h.symbol]
    exact Alternating.opened (f := openFill c p) hold rfl
  · rw [if_neg hps, if_neg (fun he => hps he.symm), List.append_nil, hmark.held]
    exact hold

theorem Handled.accounts (h : Handled c q s b s' b') (hs : Balanced capital s b.fills ∧ Paired s b.fills) :
    Balanced capital s' b'.fills ∧ Paired s' b'.fills := by
  cases h with
  | kept h => exact ⟨h.balanced hs.1, h.paired hs.2⟩
  | closed h => exact ⟨h.balanced hs.1, h.paired hs.2⟩
  | opened h => exact ⟨h.balanced hs.1, h.paired hs.2⟩

end Handled

/-! ## Runs -/

structure Accounts (capital : ℚ) (b : Book) : Prop where
  balanced : Balanced capital b.account b.fills
  paired : Paired b.account b.fills

theorem accounts_new (limits : Limits) : Accounts limits.capitalJpy (.new limits) := by
  constructor
  · constructor
    simp [Book.new, Account.new]
  · intro symbol
    exact .nil

/-- One tick keeps the accounts: opening it, each quote, and closing it do. -/
theorem Ticked.accounts {capital : ℚ} {c : Context} {b b' : Book} (h : Ticked c b b') (hb : Accounts capital b) :
    Accounts capital b' := by
  obtain ⟨s, b₁, hall, hbooks, hfills⟩ := h.handled
  have hopen := sameBooks_openTick (freshContext c b.account) b.account
  have hrun : Balanced capital s b₁.fills ∧ Paired s b₁.fills := by
    apply handleAll_induct (P := fun s b => Balanced capital s b.fills ∧ Paired s b.fills) ?_ hall
    · exact ⟨hopen.balanced hb.balanced, hopen.paired hb.paired⟩
    · intro q t b₂ t' b₃ hq ht
      -- The history is no part of the accounts.
      have hobserved : SameBooks t (observeHistory q t) := ⟨fun _ => rfl, rfl⟩
      exact hq.accounts ⟨hobserved.balanced ht.1, hobserved.paired ht.2⟩
  constructor
  · rw [hfills]
    exact hbooks.balanced hrun.1
  · rw [hfills]
    exact hbooks.paired hrun.2

theorem process_accounts {h : Host} {market : Market} {limits : Limits} {call : Call} {b : Book} {capital : ℚ}
    (hb : Accounts capital b) : Accounts capital (process h market limits call b).1 := by
  rcases process_book h market limits call b with heq | ⟨c, -, htick⟩
  · rw [heq]
    exact hb
  · exact htick.accounts hb

/-- **The accounting identity.** After every list of calls on a new book, whatever the calls are and whether they raise
or not, the accounts hold; and a call that raises leaves the book as it was. -/
theorem after_accounts (h : Host) (market : Market) (limits : Limits) (calls : List Call) :
    Accounts limits.capitalJpy (after h market limits (.new limits) calls) ∧
      ∀ call e, (process h market limits call (after h market limits (.new limits) calls)).2 = .error e →
        (process h market limits call (after h market limits (.new limits) calls)).1 =
          after h market limits (.new limits) calls := by
  constructor
  · have hrun : ∀ b, Accounts limits.capitalJpy b → Accounts limits.capitalJpy (after h market limits b calls) := by
      induction calls with
      | nil => exact fun b hb => hb
      | cons call calls ih => exact fun b hb => ih _ (process_accounts hb)
    exact hrun _ (accounts_new limits)
  · exact fun call e he => process_error he

/-! ## A run -/

/-- The value of a text of digits. -/
def wholeNumber (s : String) : Option ℚ :=
  if s ≠ "" ∧ s.toList.all Char.isDigit then
    some (s.toList.foldl (fun n c => 10 * n + (c.toNat - 48)) 0 : Nat)
  else
    none

def plainHost : Host where
  decimal := wholeNumber
  elapsed := fun t u => t - u
  jstDate := fun _ => some "1970-01-01"
  fxWeekOpen := fun _ => some true
  policyVersion := fun _ => "policy-1"
  tickId := fun call => "tick:" ++ toString call.now.num
  fillId := fun tickId symbol kind => tickId ++ ":" ++ symbol ++ ":" ++ kind

def plainLimits : Limits where
  capitalJpy := 1000000000
  allocation := 3 / 10
  positionFraction := 1 / 10
  dailyLossFraction := 1 / 50
  feeBps := 1
  slippageBps := 2
  financingBpsPerDay := 2
  maxSpreadBps := 30
  quoteAgeS := 15
  maxPositions := 3
  lot := 1
  feeBps_nonneg := by norm_num
  slippageBps_nonneg := by norm_num
  financingBpsPerDay_nonneg := by norm_num
  maxSpreadBps_nonneg := by norm_num
  capitalJpy_range := by norm_num
  positionFraction_pos := by norm_num
  positionFraction_le := by norm_num
  allocation_le := by norm_num
  dailyLossFraction_range := by norm_num
  quoteAgeS_range := by norm_num
  maxPositions_range := by norm_num
  lot_pos := by norm_num

def plainPolicy : Policy where
  kind := .momentum
  lookback := 3
  entryBps := 1
  stopBps := 60
  takeBps := 100
  maxHoldS := 900
  exitMode := .fixed
  trailActivationBps := 100
  trailDistanceBps := 50
  lookback_range := by norm_num
  entryBps_range := by norm_num
  stopBps_range := by norm_num
  takeBps_range := by norm_num
  maxHoldS_range := by norm_num
  trailActivationBps_range := by norm_num
  trailDistanceBps_range := by norm_num
  trail_lt := by norm_num

/-- One quote of `USD_JPY` at the instant `now`. -/
def plainCall (now : Time) (bid ask : String) (forceFlat : Bool) : Call where
  quotes := [⟨"USD_JPY", now, bid, ask, "1000000", "1000000", true, "source-1", "JPY"⟩]
  policy := plainPolicy
  now := now
  allowEntries := true
  forceFlat := forceFlat

/-- Falling prices, and a short on the third quote. -/
def fallingCalls : List Call :=
  [plainCall 1000 "10200" "10229" false, plainCall 1001 "10100" "10129" false, plainCall 1002 "10000" "10029" false]

theorem accounts_shortClosed :
    (after plainHost .fx plainLimits (.new plainLimits)
      (fallingCalls ++ [plainCall 1003 "9990" "10010" true])).fills.rows.length = 2 ∧
    Accounts 1000000000 (after plainHost .fx plainLimits (.new plainLimits)
      (fallingCalls ++ [plainCall 1003 "9990" "10010" true])) ∧
    (process plainHost .fx plainLimits (plainCall 0 "10000" "10029" false)
      (after plainHost .fx plainLimits (.new plainLimits) fallingCalls)).1 =
        after plainHost .fx plainLimits (.new plainLimits) fallingCalls := by
  refine ⟨?_, ?_, ?_⟩
  · decide +kernel
  · exact (after_accounts plainHost .fx plainLimits _).1
  · exact (after_accounts plainHost .fx plainLimits fallingCalls).2 (plainCall 0 "10000" "10029" false)
      (.value "invalid timestamp") rfl

end Docich.Markets
