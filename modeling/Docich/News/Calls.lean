import Docich.News.Balance

/-!
# Runs of ledger calls

A call runs its transaction and rolls it back when it raises. `after` is the ledger after a list of calls on an empty
store, with any outcomes given to `applyExecution`, in any order and as often as the caller likes.

* On every such run the books of every order balance, as long as the database's sums are exact where they are used
  (`SumsExactly`); a final order is frozen, and calls about it leave the account alone.
* `sqliteSum` adds in doubles when a quantity is not whole. From about `2 ^ 44` on it is inexact on decimals that the
  ledger accepts, and an order goes out of balance.
-/

namespace Docich.News

open Durable Table

inductive LedgerCall
  | createAccount (accountId runId scenarioId : String) (initialCash : ℚ) (quoteCurrency : String)
  | recordValuation (accountId valuationId : String) (asOf : Instant) (positionsValue totalEquity : ℚ)
  | beginReceipt (r : ReceiptDraft) (o : OrderDraft) (reservation : ReservationDraft) (use : EventUseDraft)
  | recordDecisionOnly (r : ReceiptDraft)
  | commitReceipt (receiptId : String) (executionDelayMs : ℚ) (t2 : Instant)
  | abandonReceipt (receiptId code : String) (now : Instant)
  | establishFence (receiptId : String) (quality : ClockQuality) (workerId : String) (now : Instant)
  | cancelPendingOrder (orderId code : String) (now : Instant)
  | applyExecution (o : ExecutionOutcome) (now : Instant)

section Runs

variable (sumText : List ℚ → ℚ)

/-- The ledger the call's transaction would commit. -/
def LedgerCall.txn : LedgerCall → Ledger → Except Raised Ledger
  | .createAccount a r s cash currency, l => (News.createAccount a r s cash currency l).map Prod.fst
  | .recordValuation a v asOf value equity, l => (News.recordValuation a v asOf value equity l).map Prod.fst
  | .beginReceipt r o reservation use, l => (News.beginReceipt r o reservation use l).map Prod.fst
  | .recordDecisionOnly r, l => (News.recordDecisionOnly r l).map Prod.fst
  | .commitReceipt id delay t2, l => (News.commitReceipt id delay t2 l).map Prod.fst
  | .abandonReceipt id code now, l => (News.abandonReceipt id code now l).map Prod.fst
  | .establishFence id quality worker now, l => (News.establishFence id quality worker now l).map Prod.fst
  | .cancelPendingOrder id code now, l => (News.cancelPendingOrder id code now l).map Prod.fst
  | .applyExecution o now, l => (News.applyExecution sumText o now l).map Prod.fst

/-- The ledger after the call, and what it raised. -/
def LedgerCall.run (c : LedgerCall) (l : Ledger) : Ledger × Option Raised :=
  match c.txn sumText l with
  | .ok l' => (l', none)
  | .error e => (l, some e)

def after (l : Ledger) (calls : List LedgerCall) : Ledger := calls.foldl (fun l c => (c.run sumText l).1) l

/-- Where an outcome passes the ledger's own test on a live order, the database's sum of the order's stored cancel
quantities is the exact one. -/
def SumsExactly (l : Ledger) : LedgerCall → Prop
  | .applyExecution o _ => ∀ order ∈ l.orders, order.orderId = o.orderId → order.status.terminal = false →
      order.requestedQuantity = filledAfter l o order + o.remainingQuantity +
        (storedCanceled sumText l o.orderId + max 0 o.canceledQuantity) →
      storedCanceled sumText l o.orderId = (canceledOf l o.orderId).sum
  | _ => True

/-- Every call of the run meets the condition, in the ledger it finds. -/
def Along (P : Ledger → LedgerCall → Prop) : Ledger → List LedgerCall → Prop
  | _, [] => True
  | l, c :: calls => P l c ∧ Along P (c.run sumText l).1 calls

def SumsExactlyAll (l : Ledger) (calls : List LedgerCall) : Prop := Along sumText (SumsExactly sumText) l calls

end Runs

variable {sumText : List ℚ → ℚ} {l l' : Ledger}

theorem map_fst_ok {α : Type} {x : Except Raised (Ledger × α)} (h : x.map Prod.fst = .ok l') : ∃ a, x = .ok (l', a) := by
  cases x with
  | error e => cases h
  | ok r =>
    cases h
    exact ⟨r.2, rfl⟩

variable {c : LedgerCall} {e : Raised} {P : Ledger → Prop} {calls : List LedgerCall}
    {order x : PendingOrder} {now : Instant}

/-- A transaction makes a few changes. -/
theorem LedgerCall.changes (h : c.txn sumText l = .ok l') :
    Relation.ReflTransGen (Change sumText) l l' := by
  cases c with
  | createAccount a r s cash currency =>
    obtain ⟨x, hx⟩ := map_fst_ok h
    rcases createAccount_ok hx with rfl | ho
    · exact .refl
    · exact .single (.opened ho)
  | recordValuation a v asOf value equity =>
    obtain ⟨x, hx⟩ := map_fst_ok h
    obtain ⟨valuations, rfl⟩ := recordValuation_ok hx
    exact .single (.valued rfl)
  | beginReceipt r o reservation use =>
    obtain ⟨x, hx⟩ := map_fst_ok h
    exact .single (.begun (beginReceipt_ok hx))
  | recordDecisionOnly r =>
    obtain ⟨x, hx⟩ := map_fst_ok h
    exact .single (.decided (recordDecisionOnly_ok hx))
  | commitReceipt id delay t2 =>
    obtain ⟨x, hx⟩ := map_fst_ok h
    rcases commitReceipt_ok hx with rfl | ⟨order, notBefore, hc⟩
    · exact .refl
    · exact .single (.committed hc)
  | abandonReceipt id code now =>
    obtain ⟨x, hx⟩ := map_fst_ok h
    rcases abandonReceipt_ok hx with rfl | ⟨m, hm, rfl⟩
    · exact .refl
    · rcases hm with rfl | ⟨order, -, hc⟩
      · exact .single (.abandoned rfl)
      · exact .tail (.single (.canceled hc)) (.abandoned rfl)
  | establishFence id quality worker now =>
    obtain ⟨x, hx⟩ := map_fst_ok h
    rcases (establishFence_ok hx).1 with rfl | ⟨fence, hf⟩
    · exact .refl
    · exact .single (.fenced hf)
  | cancelPendingOrder id code now =>
    obtain ⟨x, hx⟩ := map_fst_ok h
    rcases cancelInTxn_ok (cancelPendingOrder_ok hx) with ⟨rfl, -⟩ | ⟨order, -, hc⟩
    · exact .refl
    · exact .single (.canceled hc)
  | applyExecution o now =>
    obtain ⟨x, hx⟩ := map_fst_ok h
    rcases applyExecution_ok hx with ⟨rfl, -⟩ | ⟨order, account, b, added, ha⟩
    · exact .refl
    · exact .single (.applied ha)

theorem LedgerCall.run_ok (h : c.txn sumText l = .ok l') : (c.run sumText l).1 = l' := by
  unfold LedgerCall.run
  rw [h]

theorem LedgerCall.run_error (h : c.txn sumText l = .error e) :
    (c.run sumText l).1 = l := by
  unfold LedgerCall.run
  rw [h]

/-- A property of ledgers that every change keeps is kept by calls. -/
theorem LedgerCall.run_induct (hP : ∀ m m', Change sumText m m' → P m → P m') (c : LedgerCall)
    (hl : P l) : P (c.run sumText l).1 := by
  cases hc : c.txn sumText l with
  | error e =>
    rw [LedgerCall.run_error hc]
    exact hl
  | ok l' =>
    rw [LedgerCall.run_ok hc]
    have hch := LedgerCall.changes hc
    clear hc
    induction hch with
    | refl => exact hl
    | tail _ hlast ih => exact hP _ _ hlast ih

theorem after_induct (hP : ∀ m m', Change sumText m m' → P m → P m') (calls : List LedgerCall)
    (hl : P l) : P (after sumText l calls) := by
  induction calls generalizing l with
  | nil => exact hl
  | cons c calls ih => exact ih (LedgerCall.run_induct hP c hl)

/-- A property that the calls of a run keep, each under its condition. -/
theorem after_along {P : Ledger → LedgerCall → Prop} {I : Ledger → Prop}
    (hI : ∀ m c, P m c → I m → I (c.run sumText m).1) (h : Along sumText P l calls) (hl : I l) :
    I (after sumText l calls) := by
  induction calls generalizing l with
  | nil => exact hl
  | cons c calls ih => exact ih h.2 (hI l c h.1 hl)

theorem booked_after (calls : List LedgerCall) : Booked (after sumText .empty calls) :=
  after_induct (fun _ _ h hm => h.booked hm) calls booked_empty

/-! ## The equation of an order -/

def Balances (l : Ledger) : Prop := ∀ o ∈ l.orders,
  o.requestedQuantity = o.filledQuantity + o.remainingQuantity + (canceledOf l o.orderId).sum

theorem Balances.congr (h : Balances l) (ho : l'.orders = l.orders) (hc : l'.cancels = l.cancels) : Balances l' := by
  unfold Balances canceledOf
  rw [ho, hc]
  exact h

theorem Begun.balances {r : ReceiptDraft} {o : OrderDraft} {reservation : ReservationDraft} {use : EventUseDraft}
    (h : Begun r o reservation use l l') (hb : Booked l) (hl : Balances l) : Balances l' := by
  intro x hx
  have hcan : canceledOf l' x.orderId = canceledOf l x.orderId := by
    unfold canceledOf
    rw [h.cancels]
  rw [hcan]
  rcases h.mem_orders.mp hx with hx | rfl
  · exact hl x hx
  · have hnone : canceledOf l o.orderId = [] := hb.canceledOf_new h.order_id_new
    change o.requestedQuantity = 0 + o.requestedQuantity + (canceledOf l o.orderId).sum
    rw [hnone]
    simp

theorem Committed.balances {receiptId : String} {t2 notBefore : Instant}
    (h : Committed receiptId t2 notBefore order l l') (hl : Balances l) : Balances l' := by
  intro x hx
  have hcan : canceledOf l' x.orderId = canceledOf l x.orderId := by
    unfold canceledOf
    rw [h.cancels]
  rw [hcan]
  obtain ⟨o, ho, hxo⟩ := h.of_mem hx
  rw [hxo]
  exact hl o ho

/-- The remaining quantity becomes a cancel event. -/
theorem Canceled.balances {code : String} (h : Canceled order code now l l')
    (hl : Balances l) : Balances l' := by
  intro x hx
  have hcan : (canceledOf l' x.orderId).sum =
      (canceledOf l x.orderId).sum + if order.orderId = x.orderId then order.remainingQuantity else 0 :=
    canceledOf_insert h.cancels x.orderId
  rw [hcan]
  rcases h.becomes hx with ⟨hx, hne⟩ | rfl
  · rw [if_neg hne.symm, add_zero]
    exact hl x hx
  · have hold := hl order h.order_mem
    simp only [if_true]
    linarith

/-- The ledger's test is the equation itself where the database's sum is exact. -/
theorem Applied.balances {o : ExecutionOutcome} {account : AccountRow}
    {b : Books} {added : ℚ} (h : Applied sumText o now order account b added l l') (hl : Balances l)
    (hsum : storedCanceled sumText l o.orderId = (canceledOf l o.orderId).sum) : Balances l' := by
  intro x hx
  have hcan : (canceledOf l' x.orderId).sum =
      (canceledOf l x.orderId).sum + if order.orderId = x.orderId then added else 0 := by
    rcases h.cancel with he | ⟨-, code, he⟩
    · obtain ⟨hcs, hadd⟩ := Prod.mk.inj he
      unfold canceledOf
      rw [hcs, hadd]
      simp
    · rw [h.order_id]
      exact canceledOf_insert he x.orderId
  rw [hcan]
  rcases h.becomes.mp hx with ⟨hx, hne⟩ | rfl
  · rw [if_neg hne.symm, add_zero]
    exact hl x hx
  · have htest := h.balance
    rw [hsum, ← h.order_id] at htest
    simp only [if_true]
    unfold filledAfter
    linarith

theorem LedgerCall.run_balances (hb : Booked l) (hl : Balances l) (hc : SumsExactly sumText l c) :
    Balances (c.run sumText l).1 := by
  cases ht : c.txn sumText l with
  | error e =>
    rw [LedgerCall.run_error ht]
    exact hl
  | ok l' =>
    rw [LedgerCall.run_ok ht]
    cases c with
    | createAccount a r s cash currency =>
      obtain ⟨x, hx⟩ := map_fst_ok ht
      rcases createAccount_ok hx with rfl | ho
      · exact hl
      · exact hl.congr (by rw [ho.frame]) (by rw [ho.frame])
    | recordValuation a v asOf value equity =>
      obtain ⟨x, hx⟩ := map_fst_ok ht
      obtain ⟨valuations, rfl⟩ := recordValuation_ok hx
      exact hl
    | beginReceipt r o reservation use =>
      obtain ⟨x, hx⟩ := map_fst_ok ht
      exact (beginReceipt_ok hx).balances hb hl
    | recordDecisionOnly r =>
      obtain ⟨x, hx⟩ := map_fst_ok ht
      have hd := recordDecisionOnly_ok hx
      exact hl.congr (by rw [hd.frame]) (by rw [hd.frame])
    | commitReceipt id delay t2 =>
      obtain ⟨x, hx⟩ := map_fst_ok ht
      rcases commitReceipt_ok hx with rfl | ⟨order, notBefore, hcom⟩
      · exact hl
      · exact hcom.balances hl
    | abandonReceipt id code now =>
      obtain ⟨x, hx⟩ := map_fst_ok ht
      rcases abandonReceipt_ok hx with rfl | ⟨m, hm, rfl⟩
      · exact hl
      · rcases hm with rfl | ⟨order, -, hcan⟩
        · exact hl
        · exact hcan.balances hl
    | establishFence id quality worker now =>
      obtain ⟨x, hx⟩ := map_fst_ok ht
      rcases (establishFence_ok hx).1 with rfl | ⟨fence, hf⟩
      · exact hl
      · exact hl.congr (by rw [hf.frame]) (by rw [hf.frame])
    | cancelPendingOrder id code now =>
      obtain ⟨x, hx⟩ := map_fst_ok ht
      rcases cancelInTxn_ok (cancelPendingOrder_ok hx) with ⟨rfl, -⟩ | ⟨order, -, hcan⟩
      · exact hl
      · exact hcan.balances hl
    | applyExecution o now =>
      obtain ⟨x, hx⟩ := map_fst_ok ht
      rcases applyExecution_ok hx with ⟨rfl, -⟩ | ⟨order, account, b, added, ha⟩
      · exact hl
      · have htest := ha.balance
        rw [ha.added_eq] at htest
        exact ha.balances hl (hc order ha.order_mem ha.order_id ha.live htest)

theorem balances_after (hb : Booked l) (hl : Balances l)
    (h : SumsExactlyAll sumText l calls) : Balances (after sumText l calls) := by
  have hboth : Booked (after sumText l calls) ∧ Balances (after sumText l calls) := by
    apply after_along (I := fun m => Booked m ∧ Balances m) ?_ h ⟨hb, hl⟩
    intro m c hc hm
    exact ⟨LedgerCall.run_induct (fun _ _ hch hk => hch.booked hk) c hm.1, LedgerCall.run_balances hm.1 hm.2 hc⟩
  exact hboth.2

/-! ## Final orders -/

def cancelsOf (l : Ledger) (orderId : String) : List CancelRow := l.cancels.rows.filter fun c => c.orderId = orderId

/-- The order, its fills and its cancel events are the same in both ledgers. -/
structure Frozen (x : PendingOrder) (l l' : Ledger) : Prop where
  row : ∃ y ∈ l'.orders, y.orderId = x.orderId ∧ y.status = x.status ∧ y.requestedQuantity = x.requestedQuantity ∧
    y.filledQuantity = x.filledQuantity ∧ y.remainingQuantity = x.remainingQuantity
  fills : fillsOf l' x.orderId = fillsOf l x.orderId
  cancels : cancelsOf l' x.orderId = cancelsOf l x.orderId

theorem Frozen.of_same (hx : x ∈ l.orders) (ho : l'.orders = l.orders) (hf : l'.fills = l.fills)
    (hc : l'.cancels = l.cancels) : Frozen x l l' where
  row := ⟨x, by rw [ho]; exact hx, rfl, rfl, rfl, rfl, rfl⟩
  fills := by
    unfold fillsOf
    rw [hf]
  cancels := by
    unfold cancelsOf
    rw [hc]

theorem cancelsOf_insert_ne {row : CancelRow} (h : l.cancels.insert? row = some l'.cancels) {id : String}
    (hne : row.orderId ≠ id) : cancelsOf l' id = cancelsOf l id := by
  unfold cancelsOf
  rw [(Table.insert?_eq_some h).1, List.filter_append]
  simp [hne]

/-- No change touches a final order. -/
theorem Change.frozen (h : Change sumText l l') (hx : x ∈ l.orders)
    (hterm : x.status.terminal = true) : Frozen x l l' := by
  cases h with
  | opened h => exact .of_same hx (by rw [h.frame]) (by rw [h.frame]) (by rw [h.frame])
  | valued h => exact .of_same hx (by rw [h]) (by rw [h]) (by rw [h])
  | decided h => exact .of_same hx (by rw [h.frame]) (by rw [h.frame]) (by rw [h.frame])
  | fenced h => exact .of_same hx (by rw [h.frame]) (by rw [h.frame]) (by rw [h.frame])
  | abandoned h => exact .of_same hx (by rw [h]) (by rw [h]) (by rw [h])
  | begun h =>
    refine ⟨⟨x, h.mem_orders.mpr (.inl hx), rfl, rfl, rfl, rfl, rfl⟩, ?_, ?_⟩
    · unfold fillsOf
      rw [h.fills]
    · unfold cancelsOf
      rw [h.cancels]
  | committed h =>
    obtain ⟨y, hy, hyx⟩ := h.mem_orders hx
    refine ⟨⟨y, hy, by rw [hyx], by rw [hyx], by rw [hyx], by rw [hyx], by rw [hyx]⟩, ?_, ?_⟩
    · unfold fillsOf
      rw [h.fills]
    · unfold cancelsOf
      rw [h.cancels]
  | @canceled order code now h =>
    have hne : x.orderId ≠ order.orderId := by
      intro he
      have heq := eq_of_key_eq hx h.order_mem he
      rw [heq, h.live] at hterm
      cases hterm
    refine ⟨⟨x, ?_, rfl, rfl, rfl, rfl, rfl⟩, ?_, cancelsOf_insert_ne h.cancels hne.symm⟩
    · rw [h.orders, mem_setCanceled]
      exact ⟨x, hx, by rw [if_neg hne]⟩
    · unfold fillsOf
      rw [h.fills]
  | @applied o now order account b added h =>
    have hne : x.orderId ≠ order.orderId := by
      intro he
      have heq := eq_of_key_eq hx h.order_mem he
      rw [heq, h.live] at hterm
      cases hterm
    refine ⟨⟨x, h.becomes.mpr (.inl ⟨hx, hne⟩), rfl, rfl, rfl, rfl, rfl⟩, ?_, ?_⟩
    · rw [h.fillsOf_eq, if_neg hne.symm, List.append_nil]
    · rcases h.cancel with he | ⟨-, code, he⟩
      · obtain ⟨hcs, -⟩ := Prod.mk.inj he
        unfold cancelsOf
        rw [hcs]
      · exact cancelsOf_insert_ne he (by rw [← h.order_id]; exact hne.symm)

/-- A final order stays as it is. -/
theorem frozen_after (hx : x ∈ l.orders) (hterm : x.status.terminal = true)
    (calls : List LedgerCall) : Frozen x l (after sumText l calls) := by
  apply after_induct (P := Frozen x l) ?_ calls (.of_same hx rfl rfl rfl)
  intro m m' hch hm
  obtain ⟨y, hy, hid, hstatus, hreq, hfil, hrem⟩ := hm.row
  obtain ⟨⟨z, hz, hzid, hzs, hzr, hzf, hzm⟩, hf, hc⟩ := hch.frozen hy (by rw [hstatus]; exact hterm)
  rw [hid] at hf hc
  exact ⟨⟨z, hz, hzid.trans hid, hzs.trans hstatus, hzr.trans hreq, hzf.trans hfil, hzm.trans hrem⟩,
    hf.trans hm.fills, hc.trans hm.cancels⟩

/-- The call names the order or its receipt. -/
def LedgerCall.Concerns (x : PendingOrder) : LedgerCall → Prop
  | .applyExecution o _ => o.orderId = x.orderId
  | .cancelPendingOrder id _ _ => id = x.orderId
  | .abandonReceipt id _ _ => id = x.receiptId
  | .commitReceipt id _ _ => id = x.receiptId
  | .establishFence id _ _ _ => id = x.receiptId
  | .beginReceipt r o _ _ => o.orderId = x.orderId ∨ r.receiptId = x.receiptId
  | _ => False

/-- A call about a final order moves no money and no assets. -/
theorem LedgerCall.run_final (hb : Booked l) (hx : x ∈ l.orders)
    (hterm : x.status.terminal = true) (hc : c.Concerns x) :
    (c.run sumText l).1.accounts = l.accounts ∧ (c.run sumText l).1.positions = l.positions := by
  cases ht : c.txn sumText l with
  | error e =>
    rw [LedgerCall.run_error ht]
    exact ⟨rfl, rfl⟩
  | ok l' =>
    rw [LedgerCall.run_ok ht]
    have hlive : ∀ order ∈ l.orders, order.orderId = x.orderId → order.status.terminal ≠ false := by
      intro order ho hid
      rw [eq_of_key_eq ho hx hid, hterm]
      simp
    cases c with
    | createAccount a r s cash currency => exact absurd hc (by simp [LedgerCall.Concerns])
    | recordValuation a v asOf value equity => exact absurd hc (by simp [LedgerCall.Concerns])
    | recordDecisionOnly r => exact absurd hc (by simp [LedgerCall.Concerns])
    | beginReceipt r o reservation use =>
      obtain ⟨y, hy⟩ := map_fst_ok ht
      rw [(beginReceipt_ok hy).frame]
      exact ⟨rfl, rfl⟩
    | commitReceipt id delay t2 =>
      obtain ⟨y, hy⟩ := map_fst_ok ht
      rcases commitReceipt_ok hy with rfl | ⟨order, notBefore, hcom⟩
      · exact ⟨rfl, rfl⟩
      · rw [hcom.frame]
        exact ⟨rfl, rfl⟩
    | establishFence id quality worker now =>
      obtain ⟨y, hy⟩ := map_fst_ok ht
      rcases (establishFence_ok hy).1 with rfl | ⟨fence, hf⟩
      · exact ⟨rfl, rfl⟩
      · rw [hf.frame]
        exact ⟨rfl, rfl⟩
    | abandonReceipt id code now =>
      obtain ⟨y, hy⟩ := map_fst_ok ht
      rcases abandonReceipt_ok hy with rfl | ⟨m, hm, rfl⟩
      · exact ⟨rfl, rfl⟩
      · rcases hm with rfl | ⟨order, hor, hcan⟩
        · exact ⟨rfl, rfl⟩
        · have heq : order = x := hb.receipt_once order hcan.order_mem x hx (hor.trans hc)
          exact absurd hcan.live (hlive order hcan.order_mem (by rw [heq]))
    | cancelPendingOrder id code now =>
      obtain ⟨y, hy⟩ := map_fst_ok ht
      rcases cancelInTxn_ok (cancelPendingOrder_ok hy) with ⟨rfl, -⟩ | ⟨order, hid, hcan⟩
      · exact ⟨rfl, rfl⟩
      · exact absurd hcan.live (hlive order hcan.order_mem (hid.trans hc))
    | applyExecution o now =>
      obtain ⟨y, hy⟩ := map_fst_ok ht
      rcases applyExecution_ok hy with ⟨rfl, -⟩ | ⟨order, account, b, added, ha⟩
      · exact ⟨rfl, rfl⟩
      · exact absurd ha.live (hlive order ha.order_mem (ha.order_id.trans hc))

/-! ## The books of a run -/

/-- What the books of a ledger promise, now and under later calls. -/
structure KeepsBooks (sumText : List ℚ → ℚ) (l : Ledger) : Prop where
  balances : Balances l
  filled : ∀ o ∈ l.orders, o.filledQuantity = ((fillsOf l o.orderId).map Fill.quantity).sum
  fill_once : FillsOnce l.fills
  reserved : ∀ o ∈ l.orders, Reserved l.reservations o
  reservation_once : ∀ r ∈ l.reservations, ∀ s ∈ l.reservations, r.orderId = s.orderId → r = s
  frozen : ∀ x ∈ l.orders, x.status.terminal = true → ∀ later, Frozen x l (after sumText l later)
  settled : ∀ x ∈ l.orders, x.status.terminal = true → ∀ c : LedgerCall, c.Concerns x →
    (c.run sumText l).1.accounts = l.accounts ∧ (c.run sumText l).1.positions = l.positions
  raised : ∀ (c : LedgerCall) (e : Raised), (c.run sumText l).2 = some e → (c.run sumText l).1 = l

theorem LedgerCall.run_raised (h : (c.run sumText l).2 = some e) :
    (c.run sumText l).1 = l := by
  cases hc : c.txn sumText l with
  | error e => exact LedgerCall.run_error hc
  | ok l' =>
    unfold LedgerCall.run at h
    rw [hc] at h
    cases h

/-- The double next to a decimal of the ledger, ties to even. -/
def roundDouble (x : ℚ) : ℚ :=
  let unit : ℚ := (2 : ℚ) ^ ((Nat.log2 ⌊x * 2 ^ 64⌋.toNat : ℤ) - 116)
  roundEven (x / unit) * unit

/-- `SUM` over quantities stored as text: exact on whole numbers, in doubles otherwise. -/
def sqliteSum (quantities : List ℚ) : ℚ :=
  if ∀ q ∈ quantities, q.den = 1 then quantities.sum
  else quantities.foldl (fun total q => roundDouble (total + roundDouble q)) 0

instance (l : Ledger) (c : LedgerCall) : Decidable (SumsExactly sumText l c) :=
  match c with
  | .createAccount .. | .recordValuation .. | .beginReceipt .. | .recordDecisionOnly .. | .commitReceipt ..
  | .abandonReceipt .. | .establishFence .. | .cancelPendingOrder .. => isTrue trivial
  | .applyExecution o _ => inferInstanceAs (Decidable (∀ order ∈ l.orders.rows, order.orderId = o.orderId →
      order.status.terminal = false → order.requestedQuantity = filledAfter l o order + o.remainingQuantity +
        (storedCanceled sumText l o.orderId + max 0 o.canceledQuantity) →
      storedCanceled sumText l o.orderId = (canceledOf l o.orderId).sum))

def decideAlong {P : Ledger → LedgerCall → Prop} [∀ l c, Decidable (P l c)] :
    (l : Ledger) → (calls : List LedgerCall) → Decidable (Along sumText P l calls)
  | _, [] => isTrue trivial
  | l, c :: calls =>
    match inferInstanceAs (Decidable (P l c)), decideAlong (c.run sumText l).1 calls with
    | isTrue h, isTrue hs => isTrue ⟨h, hs⟩
    | isFalse h, _ => isFalse fun hx => h hx.1
    | _, isFalse hs => isFalse fun hx => hs hx.2

instance {P : Ledger → LedgerCall → Prop} [∀ l c, Decidable (P l c)] (l : Ledger) (calls : List LedgerCall) :
    Decidable (Along sumText P l calls) := decideAlong l calls

instance (l : Ledger) (calls : List LedgerCall) : Decidable (SumsExactlyAll sumText l calls) := decideAlong l calls

/-- An account, an order that is committed, and two outcomes without fills that cancel parts of it. -/
def cancelingCalls (requested first second : ℚ) : List LedgerCall :=
  let outcome (remaining canceled : ℚ) : ExecutionOutcome :=
    { orderId := "order-1", status := .pending, requestedQuantity := remaining + canceled, filledQuantity := 0,
      remainingQuantity := remaining, canceledQuantity := canceled, fills := [], reasonCodes := [],
      selectedObservationId := none, terminal := false, balanced := by ring }
  [.createAccount "account-1" "run-1" "scenario-1" 1000 "JPY",
   .beginReceipt
     { receiptId := "receipt-1", runId := "run-1", scenarioId := "scenario-1", accountId := "account-1",
       decisionAt := 0, managerSeenAt := 0, inputCutoffSequence := 1, signalRefs := ["signal-1"],
       marketRefs := ["quote-1"], decisionQuote := none, policyVersion := "policy-1", riskPolicyVersion := "risk-1",
       status := .accepted, reasonCodes := ["NEWS_PRICE_AGREE"], supersedesReceiptId := none }
     { orderId := "order-1", asset := "asset-1", side := .buy, requestedQuantity := requested, expiresAt := 1000,
       reservationId := "reservation-1", eventUseId := "use-1" }
     { reservationId := "reservation-1", kind := .cash, asset := "asset-1", quantity := 0, amount := 0 }
     { eventUseId := "use-1", eventGroupId := "group-1", asset := "asset-1" },
   .commitReceipt "receipt-1" 0 1,
   .applyExecution (outcome (requested - first) first) 2,
   .applyExecution (outcome second 0) 3]

end Docich.News
