import Docich.Trading.Data

/-!
# The evaluation of an experiment

- `evaluate_strategy_experiment`: the exits of an experiment at average cost, over the whole ledger up to a time.

Decimals are the rationals they denote. The attribution of an exit to own and carried inventory is left out: the totals
do not depend on it.
-/

namespace Docich.Trading.Lab

open List Option

/-- A fill that passed the checks of a row. -/
structure LedgerFill where
  symbol : List Char
  side : Side
  strategy_id : List Char
  amount : ℚ
  price : ℚ

/-- A row of the ledger: its time, when it is one, and its fill, when the other columns pass their checks. -/
structure LedgerRow where
  filled_at : Option ℚ
  fill : Option LedgerFill

inductive LedgerFile
  | missing
  | unreadable
  | rows (rows : List LedgerRow)

inductive EvaluationStatus
  | ok
  | partly
  | invalid
  | unavailable
  deriving DecidableEq

/-- The rows up to a time. -/
def ledgerRows (now : ℚ) : List LedgerRow → Except EvaluationStatus (List (ℚ × LedgerFill))
  | [] => .ok []
  | row :: rows =>
    match row.filled_at with
    | none => .error .invalid
    | some stamp =>
      if now < stamp then ledgerRows now rows
      else
        match row.fill with
        | none => .error .invalid
        | some fill => (ledgerRows now rows).map ((stamp, fill) :: ·)

def _ledger_rows (ledger : LedgerFile) (now : ℚ) : Except EvaluationStatus (List (ℚ × LedgerFill)) :=
  match ledger with
  | .missing => .error .unavailable
  | .unreadable => .error .unavailable
  | .rows rows => ledgerRows now rows

/-- A dictionary with this value for this key. -/
def setKey {V : Type} (key : List Char) (value : V) : List (List Char × V) → List (List Char × V)
  | [] => [(key, value)]
  | entry :: entries => if entry.1 = key then (key, value) :: entries else entry :: setKey key value entries

structure HeldLot where
  held : ℚ
  cost : ℚ

structure Tally where
  lots : List (List Char × HeldLot)
  positions : List (List Char × ℚ)
  closed : ℕ
  cumulative : ℚ
  gains : ℚ
  losses : ℚ
  ignored_unpaired_exits : ℕ

def Tally.start : Tally := ⟨[], [], 0, 0, 0, 0, 0⟩

def Tally.add (s : Tally) (pnl : ℚ) : Tally :=
  { s with closed := s.closed + 1, cumulative := s.cumulative + pnl, gains := s.gains + max 0 pnl, losses := s.losses + max 0 (-pnl) }

def LedgerFill.signed (f : LedgerFill) : ℚ :=
  match f.side with
  | .buy => f.amount
  | .sell => -f.amount

/-- The inventory after a sell of it. -/
def HeldLot.sell (lot : HeldLot) (amount : ℚ) : HeldLot :=
  if amount < lot.held then ⟨lot.held - amount, max 0 (lot.cost - lot.cost / lot.held * amount)⟩ else ⟨0, 0⟩

def Tally.next (current : Bool) (s : Tally) (f : LedgerFill) : Tally :=
  let lot := (s.lots.lookup f.symbol).getD ⟨0, 0⟩
  let s := { s with positions := setKey f.symbol ((s.positions.lookup f.symbol).getD 0 + f.signed) s.positions }
  match f.side with
  | .buy => { s with lots := setKey f.symbol ⟨lot.held + f.amount, lot.cost + f.amount * f.price⟩ s.lots }
  | .sell =>
    let s := if current ∧ lot.held < f.amount then { s with ignored_unpaired_exits := s.ignored_unpaired_exits + 1 } else s
    if lot.held ≤ 0 then { s with lots := setKey f.symbol lot s.lots }
    else
      let pnl := min f.amount lot.held * (f.price - lot.cost / lot.held)
      let s := if current then s.add pnl else s
      { s with lots := setKey f.symbol (lot.sell f.amount) s.lots }

structure Evaluation where
  experiment_id : List Char
  activated_at : ℚ
  status : EvaluationStatus
  closed_sells : Option ℕ
  realized_pnl_jpy : Option ℚ
  profit_factor : Option ℚ
  open_position_count : Option ℕ
  inventory_complete : Bool

def Evaluation.failed (experiment_id : List Char) (activated_at : ℚ) (status : EvaluationStatus) : Evaluation :=
  ⟨experiment_id, activated_at, status, none, none, none, none, false⟩

def labPrefix (experiment_id : List Char) : List Char := ['l', 'a', 'b', ':'] ++ experiment_id ++ [':']

def exitPrefix (experiment_id : List Char) : List Char := ['l', 'a', 'b', '-', 'e', 'x', 'i', 't', ':'] ++ experiment_id ++ [':']

/-- Whether a fill is a decision of the current activation. -/
def isCurrent (experiment_id : List Char) (activated_at stamp : ℚ) (f : LedgerFill) : Bool :=
  activated_at ≤ stamp && ((labPrefix experiment_id).isPrefixOf f.strategy_id || (exitPrefix experiment_id).isPrefixOf f.strategy_id)

def tallyOf (experiment_id : List Char) (activated_at : ℚ) (fills : List (ℚ × LedgerFill)) : Tally :=
  fills.foldl (fun s f => s.next (isCurrent experiment_id activated_at f.1 f.2) f.2) .start

def Tally.complete (s : Tally) : Bool :=
  s.positions.all fun p => 0 ≤ p.2 && p.2 = ((s.lots.lookup p.1).getD ⟨0, 0⟩).held

def Tally.evaluation (s : Tally) (experiment_id : List Char) (activated_at : ℚ) : Evaluation where
  experiment_id := experiment_id
  activated_at := activated_at
  status := if s.ignored_unpaired_exits = 0 then .ok else .partly
  closed_sells := some s.closed
  realized_pnl_jpy := some s.cumulative
  profit_factor := if s.losses = 0 then none else some (s.gains / s.losses)
  open_position_count := some (s.positions.countP fun p => p.2 ≠ 0)
  inventory_complete := s.complete

/-- A capital that is no positive number is none. -/
def evaluate_strategy_experiment (experiment_id : List Char) (activated_at : ℚ) (ledger : LedgerFile) (capital : Option ℚ)
    (now : ℚ) : Evaluation :=
  if now < activated_at then .failed experiment_id activated_at .invalid
  else if capital.all fun capital => capital ≤ 0 then .failed experiment_id activated_at .invalid
  else
    match _ledger_rows ledger now with
    | .error status => .failed experiment_id activated_at status
    | .ok fills => (tallyOf experiment_id activated_at fills).evaluation experiment_id activated_at

/-! ## Open positions -/

/-- What these fills leave of a symbol. -/
def net (symbol : List Char) (fills : List (ℚ × LedgerFill)) : ℚ :=
  (fills.map fun f => if f.2.symbol = symbol then f.2.signed else 0).sum

theorem lookup_cons_eq {V : Type} (key : List Char) (entry : List Char × V) (d : List (List Char × V)) :
    (entry :: d).lookup key = if key = entry.1 then some entry.2 else d.lookup key := by
  by_cases h : key = entry.1
  · rw [if_pos h, lookup_cons, beq_iff_eq.mpr h]
  · rw [if_neg h, lookup_cons, beq_false_of_ne h]

theorem mem_of_lookup {V : Type} {key : List Char} {value : V} {d : List (List Char × V)} (h : d.lookup key = some value) :
    (key, value) ∈ d := by
  induction d with
  | nil => cases h
  | cons entry d ih =>
    rw [lookup_cons_eq] at h
    split_ifs at h with hkey
    · rw [hkey, ← some.inj h]
      exact mem_cons_self
    · exact mem_cons_of_mem _ (ih h)

theorem lookup_setKey {V : Type} (key key' : List Char) (value : V) (d : List (List Char × V)) :
    (setKey key value d).lookup key' = if key' = key then some value else d.lookup key' := by
  induction d with
  | nil => rw [setKey, lookup_cons_eq]
  | cons entry d ih =>
    rw [setKey, lookup_cons_eq key' entry]
    by_cases hentry : entry.1 = key
    · rw [if_pos hentry, lookup_cons_eq]
      by_cases hkey : key' = key
      · rw [if_pos hkey, if_pos hkey]
      · rw [if_neg hkey, if_neg hkey, if_neg (fun h => hkey (h.trans hentry))]
    · rw [if_neg hentry, lookup_cons_eq, ih]
      by_cases hkey : key' = entry.1
      · rw [if_pos hkey, if_pos hkey, if_neg (fun h => hentry (hkey.symm.trans h))]
      · rw [if_neg hkey, if_neg hkey]

theorem next_positions (current : Bool) (s : Tally) (f : LedgerFill) :
    (s.next current f).positions = setKey f.symbol ((s.positions.lookup f.symbol).getD 0 + f.signed) s.positions := by
  unfold Tally.next Tally.add
  dsimp only
  split
  · rfl
  · split_ifs <;> rfl

theorem foldl_positions (experiment_id : List Char) (activated_at : ℚ) (fills : List (ℚ × LedgerFill)) (s : Tally)
    (symbol : List Char) :
    ((fills.foldl (fun s f => s.next (isCurrent experiment_id activated_at f.1 f.2) f.2) s).positions.lookup symbol).getD 0 =
      (s.positions.lookup symbol).getD 0 + net symbol fills := by
  induction fills generalizing s with
  | nil => simp [net]
  | cons f fills ih =>
    rw [foldl_cons, ih, next_positions, lookup_setKey]
    simp only [net, map_cons, sum_cons]
    by_cases h : symbol = f.2.symbol
    · rw [if_pos h, if_pos h.symm, getD_some, h, add_assoc]
    · rw [if_neg h, if_neg (Ne.symm h), zero_add]

/-- The account is flat: up to a time nothing is left of any symbol. -/
def Flat (ledger : LedgerFile) (now : ℚ) : Prop :=
  ∃ fills, _ledger_rows ledger now = .ok fills ∧ ∀ symbol, net symbol fills = 0

theorem flat_of_closed {experiment_id : List Char} {activated_at : ℚ} {ledger : LedgerFile} {capital : Option ℚ} {now : ℚ}
    (h : (evaluate_strategy_experiment experiment_id activated_at ledger capital now).open_position_count = some 0) :
    Flat ledger now := by
  unfold evaluate_strategy_experiment at h
  split_ifs at h
  · cases h
  · cases h
  · split at h
    · cases h
    · rename_i fills hrows
      refine ⟨fills, hrows, fun symbol => ?_⟩
      have hnet := foldl_positions experiment_id activated_at fills .start symbol
      rw [← tallyOf, show (Tally.start.positions.lookup symbol).getD 0 = 0 from rfl, zero_add] at hnet
      rw [← hnet]
      have hnone := countP_eq_zero.mp (some.inj h)
      cases hlookup : (tallyOf experiment_id activated_at fills).positions.lookup symbol with
      | none => rfl
      | some amount =>
        have hzero := hnone (symbol, amount) (mem_of_lookup hlookup)
        simpa using hzero

end Docich.Trading.Lab
