import Docich.News.Calls

/-!
# The cash of an account

A buy is charged its rounded-up cost, a sell is credited its rounded-down proceeds. So the cash of an account stays at
or below what its stored fills entitle it to, and less than a quantum per fill below it (`Conserves`), as long as no
sell's fee is above its proceeds. There the credit, which `money` clamps at zero, should be negative.
-/

namespace Docich.News

open Durable Table List

variable {sumText : List ℚ → ℚ} {l l' : Ledger}

/-! ## What the fills entitle an account to -/

def Fill.paid (f : Fill) : ℚ :=
  match f.side with
  | .buy => f.quantity * f.price + f.feeJpy
  | .sell => 0

def Fill.earned (f : Fill) : ℚ :=
  match f.side with
  | .buy => 0
  | .sell => f.quantity * f.price - f.feeJpy

/-- The fee is not above the proceeds. -/
def Fill.Covered (f : Fill) : Prop := f.side = .sell → f.feeJpy ≤ f.quantity * f.price

instance (f : Fill) : Decidable f.Covered := inferInstanceAs (Decidable (_ → _))

def paid (fills : Table Fill.fillId) (accountId : String) : ℚ :=
  fills.sum fun f => if f.accountId = accountId then f.paid else 0

def earned (fills : Table Fill.fillId) (accountId : String) : ℚ :=
  fills.sum fun f => if f.accountId = accountId then f.earned else 0

def fillCount (fills : Table Fill.fillId) (accountId : String) : Nat :=
  (fills.rows.filter fun f => f.accountId = accountId).length

def entitled (initial : ℚ) (fills : Table Fill.fillId) (accountId : String) : ℚ :=
  initial - paid fills accountId + earned fills accountId

/-- The cash is at most what the fills entitle to, and less than a quantum per fill below it. -/
structure Conserves (initial : ℚ) (fills : Table Fill.fillId) (accountId : String) (cash : ℚ) : Prop where
  le : cash ≤ entitled initial fills accountId
  short_le : entitled initial fills accountId - cash ≤ fillCount fills accountId * quantum
  short_lt : fillCount fills accountId ≠ 0 →
    entitled initial fills accountId - cash < fillCount fills accountId * quantum

variable {fills t : Table Fill.fillId} {f : Fill} {accountId code : String} {o : ExecutionOutcome}
    {now : Instant} {order : PendingOrder} {account x : AccountRow} {b : Books} {added : ℚ}

theorem entitled_insert (h : fills.insert? f = some t) (initial : ℚ)
    (accountId : String) : entitled initial t accountId =
      entitled initial fills accountId + if f.accountId = accountId then f.earned - f.paid else 0 := by
  unfold entitled paid earned
  rw [sum_insert h, sum_insert h]
  by_cases ha : f.accountId = accountId
  · rw [if_pos ha, if_pos ha, if_pos ha]
    ring
  · rw [if_neg ha, if_neg ha, if_neg ha]
    ring

theorem fillCount_insert (h : fills.insert? f = some t) (accountId : String) :
    fillCount t accountId = fillCount fills accountId + if f.accountId = accountId then 1 else 0 := by
  unfold fillCount
  rw [(Table.insert?_eq_some h).1, filter_append, length_append]
  by_cases ha : f.accountId = accountId
  · simp [ha]
  · simp [ha]

theorem conserves_new (h : ∀ f ∈ fills, f.accountId ≠ accountId)
    (initial : ℚ) : Conserves initial fills accountId initial := by
  have hpaid : paid fills accountId = 0 := sum_eq_zero (fun f hf => if_neg (h f hf))
  have hearned : earned fills accountId = 0 := sum_eq_zero (fun f hf => if_neg (h f hf))
  have hcount : fillCount fills accountId = 0 := by
    unfold fillCount
    rw [length_eq_zero_iff, filter_eq_nil_iff]
    intro f hf
    simpa using h f hf
  have hent : entitled initial fills accountId = initial := by
    unfold entitled
    rw [hpaid, hearned]
    ring
  constructor
  · exact hent.ge
  · rw [hent, hcount]
    simp
  · intro hne
    exact absurd hcount hne

/-! ## One fill -/

section Posted

variable {order : PendingOrder} {b b' : Books} {fill : Fill}

variable (h : Posted order b fill b')

include h

/-- What a fill moves is at most a quantum below what it entitles to. -/
theorem Posted.moved_gt :
    fill.earned - fill.paid - quantum < b'.cash - b.cash := by
  have hcash := h.cash
  have hside := h.side
  cases ho : order.side with
  | buy =>
    rw [ho] at hcash hside
    have hup := roundUp_lt_add quantum_pos (fill.quantity * fill.price + fill.feeJpy)
    simp only [Fill.earned, Fill.paid, hside]
    linarith
  | sell =>
    rw [ho] at hcash hside
    have hdown := lt_roundDown_add quantum_pos (fill.quantity * fill.price - fill.feeJpy)
    have hmax := le_max_right 0 (roundDown quantum (fill.quantity * fill.price - fill.feeJpy))
    simp only [Fill.earned, Fill.paid, hside]
    linarith

/-- A fill moves at most what it entitles to, exactly when its fee is covered. -/
theorem Posted.moved_le_iff :
    b'.cash - b.cash ≤ fill.earned - fill.paid ↔ fill.Covered := by
  have hcash := h.cash
  have hside := h.side
  cases ho : order.side with
  | buy =>
    rw [ho] at hcash hside
    have hup := le_roundUp quantum_pos (fill.quantity * fill.price + fill.feeJpy)
    simp only [Fill.earned, Fill.paid, Fill.Covered, hside]
    constructor
    · intro _ hs
      cases hs
    · intro _
      linarith
  | sell =>
    rw [ho] at hcash hside
    have hdown := roundDown_le quantum_pos (fill.quantity * fill.price - fill.feeJpy)
    simp only [Fill.earned, Fill.paid, Fill.Covered, hside]
    constructor
    · intro hle _
      have hmax := le_max_left 0 (roundDown quantum (fill.quantity * fill.price - fill.feeJpy))
      linarith
    · intro hcov
      have hmax : max 0 (roundDown quantum (fill.quantity * fill.price - fill.feeJpy)) ≤
          fill.quantity * fill.price - fill.feeJpy :=
        max_le (by linarith [hcov trivial]) hdown
      linarith

omit h

theorem fillRow_earned_paid (order : PendingOrder) (hside : fill.side = order.side) :
    (fillRow order fill).earned - (fillRow order fill).paid = fill.earned - fill.paid := by
  simp only [Fill.earned, Fill.paid, fillRow, hside]

variable {initial : ℚ} {fills : List Fill}

include h in
theorem Posted.conserves (hcov : fill.Covered)
    (hb : Conserves initial b.fills order.accountId b.cash) :
    Conserves initial b'.fills order.accountId b'.cash := by
  have hent := entitled_insert h.fills initial order.accountId
  have hcount := fillCount_insert h.fills order.accountId
  have hrow : (fillRow order fill).accountId = order.accountId := rfl
  rw [fillRow_earned_paid order h.side, if_pos hrow] at hent
  rw [if_pos hrow] at hcount
  have hle := h.moved_le_iff.mpr hcov
  have hgt := h.moved_gt
  have hshort : entitled initial b'.fills order.accountId - b'.cash <
      fillCount b'.fills order.accountId * quantum := by
    rw [hcount, hent]
    push_cast
    linarith [hb.short_le]
  constructor
  · linarith [hb.le]
  · exact hshort.le
  · exact fun _ => hshort

theorem PostedAll.conserves (h : PostedAll order b fills b') (hcov : ∀ f ∈ fills, f.Covered)
    (hb : Conserves initial b.fills order.accountId b.cash) :
    Conserves initial b'.fills order.accountId b'.cash := by
  induction h with
  | nil b => exact hb
  | cons h hs ih =>
    apply ih (fun f hf => hcov f (mem_cons_of_mem _ hf))
    exact h.conserves (hcov _ mem_cons_self) hb

/-- Another account's fills stay. -/
theorem PostedAll.other (h : PostedAll order b fills b') {accountId : String}
    (hne : order.accountId ≠ accountId) (initial : ℚ) :
    entitled initial b'.fills accountId = entitled initial b.fills accountId ∧
      fillCount b'.fills accountId = fillCount b.fills accountId := by
  induction h with
  | nil b => exact ⟨rfl, rfl⟩
  | @cons _ _ _ fill _ h hs ih =>
    obtain ⟨he, hc⟩ := ih
    rw [he, hc, entitled_insert h.fills, fillCount_insert h.fills]
    have hrow : ¬ (fillRow order fill).accountId = accountId := hne
    rw [if_neg hrow, if_neg hrow]
    exact ⟨add_zero _, rfl⟩

end Posted

/-! ## The accounts of a ledger -/

/-- Every order belongs to an account. -/
def Owned (l : Ledger) : Prop := ∀ o ∈ l.orders, ∃ a ∈ l.accounts, a.accountId = o.accountId

def Conserved (l : Ledger) : Prop := ∀ a ∈ l.accounts, Conserves a.initialCash l.fills a.accountId a.cash

/-- What becomes of an account when an outcome is applied. -/
theorem Applied.account_becomes (h : Applied sumText o now order account b added l l') :
    x ∈ l'.accounts ↔ x ∈ l.accounts ∧ x.accountId ≠ order.accountId ∨
      x = { account with cash := b.cash, revision := account.revision + 1 } := by
  have hacc : l'.accounts = setCash order.accountId b.cash l := by rw [h.frame]
  rw [hacc, setCash, mem_update]
  constructor
  · rintro ⟨a, ha, rfl⟩
    by_cases hid : a.accountId = order.accountId
    · have heq : a = account := eq_of_key_eq ha h.account_mem (hid.trans h.account_id.symm)
      rw [if_pos (by simpa using hid), heq]
      exact .inr rfl
    · rw [if_neg (by simpa using hid)]
      exact .inl ⟨ha, hid⟩
  · rintro (⟨hx, hne⟩ | rfl)
    · exact ⟨x, hx, by rw [if_neg (by simpa using hne)]⟩
    · exact ⟨account, h.account_mem, by rw [if_pos (by simpa using h.account_id)]⟩

theorem Canceled.account_becomes (h : Canceled order code now l l') : x ∈ l'.accounts ↔
      ∃ a ∈ l.accounts, x = if a.accountId = order.accountId then { a with revision := a.revision + 1 } else a := by
  have hacc : l'.accounts = bumpRevision order.accountId l := by rw [h.frame]
  rw [hacc, bumpRevision, mem_update]
  simp only [decide_eq_true_eq]

/-- Accounts stay, with their ids. -/
theorem Change.account_stays (h : Change sumText l l') {a : AccountRow} (ha : a ∈ l.accounts) :
    ∃ x ∈ l'.accounts, x.accountId = a.accountId := by
  cases h with
  | opened h =>
    obtain ⟨row, -, -, -, hins⟩ := h.accounts
    exact ⟨a, (mem_insert? hins).mpr (.inl ha), rfl⟩
  | valued h => exact ⟨a, by rw [h]; exact ha, rfl⟩
  | begun h => exact ⟨a, by rw [h.frame]; exact ha, rfl⟩
  | decided h => exact ⟨a, by rw [h.frame]; exact ha, rfl⟩
  | committed h => exact ⟨a, by rw [h.frame]; exact ha, rfl⟩
  | fenced h => exact ⟨a, by rw [h.frame]; exact ha, rfl⟩
  | abandoned h => exact ⟨a, by rw [h]; exact ha, rfl⟩
  | canceled h =>
    refine ⟨_, h.account_becomes.mpr ⟨a, ha, rfl⟩, ?_⟩
    split <;> rfl
  | @applied o now order account b added h =>
    by_cases hid : a.accountId = order.accountId
    · have heq := eq_of_key_eq ha h.account_mem (hid.trans h.account_id.symm)
      exact ⟨_, h.account_becomes.mpr (.inr rfl), by rw [heq]⟩
    · exact ⟨a, h.account_becomes.mpr (.inl ⟨ha, hid⟩), rfl⟩

/-- Orders come from stored orders, or from an acceptance on a known account. -/
theorem Change.owned (h : Change sumText l l') (hl : Owned l) : Owned l' := by
  have hold : ∀ x : PendingOrder, (∃ o ∈ l.orders, o.accountId = x.accountId) →
      ∃ a ∈ l'.accounts, a.accountId = x.accountId := by
    rintro x ⟨o, ho, hox⟩
    obtain ⟨a, ha, hao⟩ := hl o ho
    obtain ⟨y, hy, hya⟩ := h.account_stays ha
    exact ⟨y, hy, by rw [hya, hao, hox]⟩
  intro x hx
  cases h with
  | opened h =>
    apply hold
    exact ⟨x, by rw [h.frame] at hx; exact hx, rfl⟩
  | valued h =>
    apply hold
    exact ⟨x, by rw [h] at hx; exact hx, rfl⟩
  | begun h =>
    rcases h.mem_orders.mp hx with hx | rfl
    · exact hold x ⟨x, hx, rfl⟩
    · obtain ⟨a, ha⟩ := Option.isSome_iff_exists.mp h.account
      obtain ⟨hm, hid⟩ := Table.find?_eq_some.mp ha
      exact ⟨a, by rw [h.frame]; exact hm, hid⟩
  | decided h =>
    apply hold
    exact ⟨x, by rw [h.frame] at hx; exact hx, rfl⟩
  | committed h =>
    obtain ⟨o, ho, hxo⟩ := h.of_mem hx
    exact hold x ⟨o, ho, by rw [hxo]⟩
  | fenced h =>
    apply hold
    exact ⟨x, by rw [h.frame] at hx; exact hx, rfl⟩
  | canceled h =>
    rcases h.becomes hx with ⟨hx, -⟩ | rfl
    · exact hold x ⟨x, hx, rfl⟩
    · exact hold _ ⟨_, h.order_mem, rfl⟩
  | abandoned h =>
    apply hold
    exact ⟨x, by rw [h] at hx; exact hx, rfl⟩
  | applied h =>
    rcases h.becomes.mp hx with ⟨hx, -⟩ | rfl
    · exact hold x ⟨x, hx, rfl⟩
    · exact hold _ ⟨_, h.order_mem, rfl⟩

theorem Conserved.congr (h : Conserved l) (ha : l'.accounts = l.accounts) (hf : l'.fills = l.fills) : Conserved l' := by
  unfold Conserved
  rw [ha, hf]
  exact h

/-- A new account has no fills: fills belong to orders, and orders to accounts. -/
theorem Opened.conserved {cash : ℚ} (h : Opened accountId cash l l') (hb : Booked l)
    (ho : Owned l) (hl : Conserved l) : Conserved l' := by
  obtain ⟨row, hid, hcash, hinit, hins⟩ := h.accounts
  have hfills : l'.fills = l.fills := by rw [h.frame]
  intro a ha
  rw [hfills]
  rcases (mem_insert? hins).mp ha with ha | rfl
  · exact hl a ha
  · rw [hcash, hinit]
    apply conserves_new
    intro f hf he
    obtain ⟨o, hom, -, -, hfa, -⟩ := hb.fill_order f hf
    obtain ⟨x, hx, hxo⟩ := ho o hom
    exact (Table.insert?_eq_some hins).2 x hx (by rw [hxo, ← hfa, he])

theorem Canceled.conserved (h : Canceled order code now l l')
    (hl : Conserved l) : Conserved l' := by
  intro x hx
  rw [h.fills]
  obtain ⟨a, ha, rfl⟩ := h.account_becomes.mp hx
  split
  · exact hl a ha
  · exact hl a ha

theorem Applied.conserved (h : Applied sumText o now order account b added l l')
    (hcov : ∀ f ∈ newFills l o, f.Covered) (hl : Conserved l) : Conserved l' := by
  intro x hx
  rw [h.fills]
  rcases h.account_becomes.mp hx with ⟨hx, hne⟩ | rfl
  · obtain ⟨he, hc⟩ := h.posted.other hne.symm x.initialCash
    have hx := hl x hx
    exact ⟨by rw [he]; exact hx.le, by rw [he, hc]; exact hx.short_le, by rw [he, hc]; exact hx.short_lt⟩
  · have hacc := hl account h.account_mem
    rw [h.account_id] at hacc
    have := h.posted.conserves hcov hacc
    rw [← h.account_id] at this
    exact this

/-! ## Runs -/

/-- A sell that the outcome adds covers its fee. -/
def FeesCovered (l : Ledger) : LedgerCall → Prop
  | .applyExecution o _ => ∀ f ∈ newFills l o, f.Covered
  | _ => True

instance (l : Ledger) (c : LedgerCall) : Decidable (FeesCovered l c) :=
  match c with
  | .createAccount .. | .recordValuation .. | .beginReceipt .. | .recordDecisionOnly .. | .commitReceipt ..
  | .abandonReceipt .. | .establishFence .. | .cancelPendingOrder .. => isTrue trivial
  | .applyExecution o _ => inferInstanceAs (Decidable (∀ f ∈ newFills l o, f.Covered))

theorem LedgerCall.run_conserved {c : LedgerCall} (hb : Booked l) (ho : Owned l) (hl : Conserved l)
    (hc : FeesCovered l c) : Conserved (c.run sumText l).1 := by
  cases ht : c.txn sumText l with
  | error e =>
    rw [LedgerCall.run_error ht]
    exact hl
  | ok l' =>
    rw [LedgerCall.run_ok ht]
    cases c with
    | createAccount a r s cash currency =>
      obtain ⟨x, hx⟩ := map_fst_ok ht
      rcases createAccount_ok hx with rfl | hop
      · exact hl
      · exact hop.conserved hb ho hl
    | recordValuation a v asOf value equity =>
      obtain ⟨x, hx⟩ := map_fst_ok ht
      obtain ⟨valuations, rfl⟩ := recordValuation_ok hx
      exact hl
    | beginReceipt r o reservation use =>
      obtain ⟨x, hx⟩ := map_fst_ok ht
      have hbeg := beginReceipt_ok hx
      exact hl.congr (by rw [hbeg.frame]) hbeg.fills
    | recordDecisionOnly r =>
      obtain ⟨x, hx⟩ := map_fst_ok ht
      have hd := recordDecisionOnly_ok hx
      exact hl.congr (by rw [hd.frame]) (by rw [hd.frame])
    | commitReceipt id delay t2 =>
      obtain ⟨x, hx⟩ := map_fst_ok ht
      rcases commitReceipt_ok hx with rfl | ⟨order, notBefore, hcom⟩
      · exact hl
      · exact hl.congr (by rw [hcom.frame]) hcom.fills
    | abandonReceipt id code now =>
      obtain ⟨x, hx⟩ := map_fst_ok ht
      rcases abandonReceipt_ok hx with rfl | ⟨m, hm, rfl⟩
      · exact hl
      · rcases hm with rfl | ⟨order, -, hcan⟩
        · exact hl
        · exact hcan.conserved hl
    | establishFence id quality worker now =>
      obtain ⟨x, hx⟩ := map_fst_ok ht
      rcases (establishFence_ok hx).1 with rfl | ⟨fence, hf⟩
      · exact hl
      · exact hl.congr (by rw [hf.frame]) (by rw [hf.frame])
    | cancelPendingOrder id code now =>
      obtain ⟨x, hx⟩ := map_fst_ok ht
      rcases cancelInTxn_ok (cancelPendingOrder_ok hx) with ⟨rfl, -⟩ | ⟨order, -, hcan⟩
      · exact hl
      · exact hcan.conserved hl
    | applyExecution o now =>
      obtain ⟨x, hx⟩ := map_fst_ok ht
      rcases applyExecution_ok hx with ⟨rfl, -⟩ | ⟨order, account, b, added, ha⟩
      · exact hl
      · exact ha.conserved hc hl

/-- An account that buys one unit and sells it again, for a price of `1` each and the given fee on the sell. -/
def roundTripCalls (fee : ℚ) : List LedgerCall :=
  let receipt (id : String) : ReceiptDraft :=
    { receiptId := id, runId := "run-1", scenarioId := "scenario-1", accountId := "account-1", decisionAt := 0,
      managerSeenAt := 0, inputCutoffSequence := 1, signalRefs := ["signal-1"], marketRefs := ["quote-1"],
      decisionQuote := none, policyVersion := "policy-1", riskPolicyVersion := "risk-1", status := .accepted,
      reasonCodes := ["NEWS_PRICE_AGREE"], supersedesReceiptId := none }
  let order (id reservationId useId : String) (side : Side) : OrderDraft :=
    { orderId := id, asset := "asset-1", side := side, requestedQuantity := 1, expiresAt := 1000,
      reservationId := reservationId, eventUseId := useId }
  let fill (id orderId receiptId : String) (side : Side) (fee : ℚ) : Fill :=
    { fillId := id, orderId := orderId, receiptId := receiptId, accountId := "account-1", asset := "asset-1",
      side := side, quantity := 1, price := 1, feeJpy := fee, slippageBps := 0, quoteRef := "observation-1",
      marketEventAt := 2, marketAvailableAt := 2, filledAt := 2, isPartial := false, levelIndex := 0 }
  let outcome (orderId : String) (fill : Fill) : ExecutionOutcome :=
    { orderId := orderId, status := .filled, requestedQuantity := 1, filledQuantity := 1, remainingQuantity := 0,
      canceledQuantity := 0, fills := [fill], reasonCodes := [], selectedObservationId := some "observation-1",
      terminal := true, balanced := by norm_num }
  [.createAccount "account-1" "run-1" "scenario-1" 1000 "JPY",
   .beginReceipt (receipt "receipt-1") (order "order-1" "reservation-1" "use-1" .buy)
     ⟨"reservation-1", .cash, "asset-1", 0, 1⟩ ⟨"use-1", "group-1", "asset-1"⟩,
   .commitReceipt "receipt-1" 0 1,
   .applyExecution (outcome "order-1" (fill "fill-1" "order-1" "receipt-1" .buy 0)) 2,
   .beginReceipt (receipt "receipt-2") (order "order-2" "reservation-2" "use-2" .sell)
     ⟨"reservation-2", .inventory, "asset-1", 1, 0⟩ ⟨"use-2", "group-2", "asset-1"⟩,
   .commitReceipt "receipt-2" 0 3,
   .applyExecution (outcome "order-2" (fill "fill-2" "order-2" "receipt-2" .sell fee)) 4]

end Docich.News
