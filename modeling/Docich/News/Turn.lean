import Docich.News.Caps
import Docich.News.Worker

/-!
# The treatment of one pending order

`Turn` is what a row of the worker's loops does to the ledger: it touches its own order alone, ends it where it has
expired and is hit, and leaves it where it has expired and is missed. A cancellation hits the pending buys whose id
the ledger takes (`Cancelable`), the processing hits the orders that are quoted, configured and readable (`Observed`).
-/

namespace Docich.News

open Durable Option Table

/-! ## Hits -/

/-- The fence that the processing of an order of the receipt meets. -/
def offeredFence (m : Manager) (now : Instant) (l : Ledger) (receiptId : String) : Option Fence :=
  (l.markers.rows.find? fun mk => mk.receiptId = receiptId).map fun mk =>
    (l.fences.rows.find? fun f => f.markerId = mk.markerId).getD
      ⟨"fence:" ++ receiptId, mk.markerId, receiptId, now, m.clockQuality, m.workerId⟩

/-- The order, its receipt and its fence pass the checks of their constructors. -/
structure Readable (m : Manager) (now : Instant) (l : Ledger) (o : PendingOrder) : Prop where
  order : o.check = .ok ()
  receipt : ∀ row ∈ l.receipts, row.receiptId = o.receiptId → (receiptStateOf row true).check = .ok ()
  fence : ∀ f, offeredFence m now l o.receiptId = some f → f.check = .ok ()

/-- The cancellation of pending buys takes the order. -/
def Cancelable (o : PendingOrder) : Prop := o.side = .buy ∧ validId o.orderId = true

/-- The cycle executes the order. -/
structure Observed (cfg : WorkerConfig) (now : Instant) (observed : List MarketObservation) (l : Ledger)
    (o : PendingOrder) : Prop where
  quoted : byAsset observed o.asset ≠ []
  configured : cfg.constraints o.asset ≠ none
  readable : Readable cfg.manager now l o

/-! ## One row -/

/-- The treatment of the order `o`: nothing else is touched; a hit order that has expired is final after it, one that
was missed is as it was. -/
structure Turn (hit : Prop) (now : Instant) (o : PendingOrder) (l l' : Ledger) : Prop where
  booked : Booked l'
  others : ∀ x : PendingOrder, x.orderId ≠ o.orderId → (x ∈ l'.orders ↔ x ∈ l.orders)
  same : ∀ x ∈ l'.orders, x.orderId = o.orderId → x.expiresAt = o.expiresAt ∧ x.accountId = o.accountId
  receipts : l'.receipts = l.receipts
  markers : l'.markers = l.markers
  fences : ∀ markerId, (∀ mk ∈ l.markers, mk.receiptId = o.receiptId → mk.markerId ≠ markerId) →
    (l'.fences.rows.find? fun f => f.markerId = markerId) = l.fences.rows.find? fun f => f.markerId = markerId
  done : o.expiresAt ≤ now → hit → ∀ x ∈ l'.orders, x.orderId = o.orderId → x.status.terminal = true
  missed : o.expiresAt ≤ now → ¬ hit → o ∈ l'.orders

variable {sumText : List ℚ → ℚ} {l l' m t : Ledger} {o : PendingOrder} {now : Instant} {hit : Prop}

/-- A ledger whose orders are untouched. -/
theorem Turn.idle (hb : Booked l) (ho : o ∈ l.orders) (hh : o.expiresAt ≤ now → ¬ hit) : Turn hit now o l l where
  booked := hb
  others := fun _ _ => Iff.rfl
  same := by
    intro x hx hid
    rw [eq_of_key_eq hx ho hid]
    exact ⟨rfl, rfl⟩
  receipts := rfl
  markers := rfl
  fences := fun _ _ => rfl
  done := fun he h => absurd h (hh he)
  missed := fun _ _ => ho

variable {receiptId code : String} {at' : Instant} {hit₀ p : Prop} {out : ExecutionOutcome}
    {b : Books} {α : Type} {y : Option α} {a : α} {q : ℚ} {observations : List MarketObservation}
    {c : InstrumentConstraints} {k : Nat}

/-- A new fence is a fence of the receipt's own marker. -/
theorem Fenced.find_other {markerId : String} {fence : Fence} (h : Fenced receiptId fence l l')
    (hm : ∀ mk ∈ l.markers, mk.receiptId = receiptId → mk.markerId ≠ markerId) :
    (l'.fences.rows.find? fun f => f.markerId = markerId) = l.fences.rows.find? fun f => f.markerId = markerId := by
  obtain ⟨mk, hmem, hr, hid⟩ := h.marker
  rw [(Table.insert?_eq_some h.fences).1, List.find?_append]
  have hne : fence.markerId ≠ markerId := hid ▸ hm mk hmem hr
  simp [hne]

theorem Turn.of_fence {x : Option Fence} {quality : ClockQuality} {workerId : String}
    (hb : Booked l) (ho : o ∈ l.orders) (hh : o.expiresAt ≤ now → ¬ hit)
    (h : establishFence o.receiptId quality workerId at' l = .ok (l', x)) : Turn hit now o l l' := by
  rcases (establishFence_ok h).1 with rfl | ⟨fence, hf⟩
  · exact Turn.idle hb ho hh
  · have hframe := hf.frame
    have horders : l'.orders = l.orders := by rw [hframe]
    exact
      { booked := hb.congr (by rw [hframe]) (by rw [hframe]) horders (by rw [hframe])
        others := fun x _ => by rw [horders]
        same := by
          intro x hx hid
          rw [horders] at hx
          rw [eq_of_key_eq hx ho hid]
          exact ⟨rfl, rfl⟩
        receipts := by rw [hframe]
        markers := by rw [hframe]
        fences := fun markerId hm => hf.find_other hm
        done := fun he hhit => absurd hhit (hh he)
        missed := fun _ _ => horders ▸ ho }

/-- The cancellation of a live order. -/
theorem Turn.of_canceled (hb : Booked l) (hc : Canceled o code at' l l') (hh : hit) :
    Turn hit now o l l' where
  booked := hc.booked hb
  others := by
    intro x hne
    rw [hc.orders, mem_setCanceled]
    constructor
    · rintro ⟨y, hy, rfl⟩
      split at hne
      · exact absurd ‹_› hne
      · next hy' =>
        rw [if_neg hy']
        exact hy
    · intro hx
      exact ⟨x, hx, by rw [if_neg hne]⟩
  same := by
    intro x hx hid
    rcases hc.becomes hx with ⟨-, hne⟩ | rfl
    · exact absurd hid hne
    · exact ⟨rfl, rfl⟩
  receipts := by rw [hc.frame]
  markers := by rw [hc.frame]
  fences := fun _ _ => by rw [hc.frame]
  done := by
    intro _ _ x hx hid
    rcases hc.becomes hx with ⟨-, hne⟩ | rfl
    · exact absurd hid hne
    · rfl
  missed := fun _ hnot => absurd hh hnot

/-- An outcome is applied to the order, after its fence. -/
theorem Turn.applied {account : AccountRow}
    {added : ℚ} (h : Turn hit₀ now o l t) (ha : Applied sumText out at' o account b added t l')
    (hh : o.expiresAt ≤ now → hit) (hd : o.expiresAt ≤ now → out.status.terminal = true) : Turn hit now o l l' where
  booked := ha.booked h.booked
  others := by
    intro x hne
    rw [← h.others x hne, ha.becomes]
    constructor
    · rintro (⟨hx, -⟩ | rfl)
      · exact hx
      · exact absurd rfl hne
    · intro hx
      exact .inl ⟨hx, hne⟩
  same := by
    intro x hx hid
    rcases ha.becomes.mp hx with ⟨-, hne⟩ | rfl
    · exact absurd hid hne
    · exact ⟨rfl, rfl⟩
  receipts := by
    rw [← h.receipts, ha.frame]
  markers := by
    rw [← h.markers, ha.frame]
  fences := by
    intro markerId hm
    rw [← h.fences markerId hm, ha.frame]
  done := by
    intro he _ x hx hid
    rcases ha.becomes.mp hx with ⟨-, hne⟩ | rfl
    · exact absurd hid hne
    · exact hd he
  missed := fun he hnot => absurd (hh he) hnot

/-! ## Checks -/

variable {mgr : Manager} {x : Option Fence} {at' : Instant}

/-- A fence is given out only after its check. -/
theorem establishFence_checks (h : establishFence receiptId mgr.clockQuality mgr.workerId at' l = .ok (l', x)) :
    ∀ f, offeredFence mgr now l receiptId = some f → f.check = .ok () := by
  intro f hf
  unfold offeredFence at hf
  obtain ⟨_, -, h⟩ := bind_ok h
  cases hm : l.markers.rows.find? fun mk => mk.receiptId = receiptId with
  | none =>
    rw [hm] at hf
    cases hf
  | some mk =>
    rw [hm] at h hf
    cases hstored : l.fences.rows.find? fun g => g.markerId = mk.markerId with
    | some g =>
      simp only [hstored, map_some, getD_some, some.injEq] at h hf
      obtain ⟨_, hcheck, -⟩ := bind_ok h
      exact hf ▸ hcheck
    | none =>
      simp only [hstored, map_some, getD_none, some.injEq] at h hf
      obtain ⟨_, -, h⟩ := bind_ok h
      obtain ⟨_, hcheck, -⟩ := bind_ok h
      rw [← hf]
      exact hcheck

theorem checkId_error {id : String} : checkId id ≠ .error (.execution code) := by
  intro h
  cases (require_error h).2

theorem inserted_error : inserted y ≠ .error (.execution code) := by
  intro h
  cases y with
  | none => cases h
  | some a => cases h

/-- An `ExecutionError` from the fence is the error of its check. -/
theorem establishFence_refuses (h : establishFence receiptId mgr.clockQuality mgr.workerId at' l = .error (.execution code)) :
    ∃ f, offeredFence mgr now l receiptId = some f ∧ f.check ≠ .ok () := by
  unfold offeredFence
  rcases bind_error h with h | ⟨_, -, h⟩
  · exact absurd h checkId_error
  cases hm : l.markers.rows.find? fun mk => mk.receiptId = receiptId with
  | none =>
    rw [hm] at h
    cases h
  | some mk =>
    rw [hm] at h
    cases hstored : l.fences.rows.find? fun g => g.markerId = mk.markerId with
    | some g =>
      simp only [hstored] at h
      simp only [map_some, hstored, getD_some, some.injEq, exists_eq_left']
      rcases bind_error h with hcheck | ⟨_, -, h⟩
      · rw [hcheck]
        simp
      · cases h
    | none =>
      simp only [hstored] at h
      simp only [map_some, hstored, getD_none, some.injEq, exists_eq_left']
      rcases bind_error h with h | ⟨_, -, h⟩
      · exact absurd h inserted_error
      rcases bind_error h with hcheck | ⟨_, -, h⟩
      · intro hok
        have hsame := hcheck.symm.trans hok
        cases hsame
      · cases h

/-- What the loading of an order checks. -/
theorem loadOrder_checks {y : Loaded} (ho : o ∈ l.orders) (h : loadOrder o.orderId true l = .ok y) :
    y.order = o ∧ o.check = .ok () ∧ ∀ row ∈ l.receipts, row.receiptId = o.receiptId →
      y.receipt = receiptStateOf row true ∧ (receiptStateOf row true).check = .ok () := by
  obtain ⟨order, hrow, h⟩ := bind_ok h
  obtain ⟨hmem, hid⟩ := orderRow_ok hrow
  obtain rfl : order = o := eq_of_key_eq hmem ho hid
  obtain ⟨row, hr, h⟩ := bind_ok h
  obtain ⟨hrmem, hrid⟩ := receiptRow_ok hr
  obtain ⟨_, hcheck, h⟩ := bind_ok h
  obtain ⟨_, hrcheck, h⟩ := bind_ok h
  cases h
  refine ⟨rfl, hcheck, fun row' hmem' hid' => ?_⟩
  obtain rfl : row' = row := eq_of_key_eq hmem' hrmem (hid'.trans hrid.symm)
  exact ⟨rfl, hrcheck⟩

/-- An `ExecutionError` from the loading is the error of a check. -/
theorem loadOrder_refuses (ho : o ∈ l.orders)
    (h : loadOrder o.orderId true l = .error (.execution code)) :
    o.check ≠ .ok () ∨ ∃ row ∈ l.receipts, row.receiptId = o.receiptId ∧ (receiptStateOf row true).check ≠ .ok () := by
  rcases bind_error h with h | ⟨order, hrow, h⟩
  · unfold orderRow at h
    rcases bind_error h with h | ⟨_, -, h⟩
    · exact absurd h checkId_error
    · split at h <;> cases h
  obtain ⟨hmem, hid⟩ := orderRow_ok hrow
  obtain rfl : order = o := eq_of_key_eq hmem ho hid
  rcases bind_error h with h | ⟨row, hr, h⟩
  · unfold receiptRow at h
    rcases bind_error h with h | ⟨_, -, h⟩
    · exact absurd h checkId_error
    · split at h <;> cases h
  obtain ⟨hrmem, hrid⟩ := receiptRow_ok hr
  rcases bind_error h with h | ⟨_, -, h⟩
  · left
    rw [h]
    simp
  rcases bind_error h with h | ⟨_, -, h⟩
  · right
    refine ⟨row, hrmem, hrid, ?_⟩
    rw [h]
    simp
  · cases h

/-! ## Errors of the ledger -/

/-- The call raises no `ExecutionError`. -/
def LedgerOnly {α : Type} (y : Except Raised α) : Prop := ∀ code, y ≠ .error (.execution code)

theorem ledgerOnly_ok : LedgerOnly (.ok a : Except Raised α) := fun _ h => nomatch h

theorem LedgerOnly.bind {β : Type} {y : Except Raised α} {f : α → Except Raised β} (h : LedgerOnly y)
    (hf : ∀ a, LedgerOnly (f a)) : LedgerOnly (y >>= f) := by
  intro code hbind
  rcases bind_error hbind with hy | ⟨a, -, ha⟩
  · exact h code hy
  · exact hf a code ha

theorem ledgerOnly_require [Decidable p] : LedgerOnly (require p (.ledger code)) := by
  intro code' h
  cases (require_error h).2

theorem ledgerOnly_integrity [Decidable p] : LedgerOnly (require p .integrity) := by
  intro code h
  cases (require_error h).2

theorem ledgerOnly_inserted : LedgerOnly (inserted y) := fun _ => inserted_error

theorem ledgerOnly_ite [Decidable p] :
    LedgerOnly (if p then .ok a else .error (.ledger code) : Except Raised α) := by
  intro code' h
  split at h <;> cases h

theorem ledgerOnly_dec : LedgerOnly (dec q) := ledgerOnly_ite

theorem ledgerOnly_decPositive : LedgerOnly (decPositive q) := ledgerOnly_ite

theorem ledgerOnly_money {charge : Bool} : LedgerOnly (money q charge) := ledgerOnly_ite

theorem ledgerOnly_accountSnapshot {accountId : String} : LedgerOnly (accountSnapshot accountId l) := by
  refine ledgerOnly_require.bind fun _ => ?_
  intro code h
  split at h <;> cases h

theorem ledgerOnly_insertFill {fills : Table Fill.fillId} {row : Fill} : LedgerOnly (insertFill fills row) :=
  ledgerOnly_require.bind fun _ => ledgerOnly_dec.bind fun _ => ledgerOnly_require.bind fun _ =>
    ledgerOnly_integrity.bind fun _ => ledgerOnly_integrity.bind fun _ => ledgerOnly_inserted

theorem ledgerOnly_applyFill {fill : Fill} : LedgerOnly (applyFill o b fill) := by
  refine ledgerOnly_require.bind fun _ => ledgerOnly_decPositive.bind fun _ => ledgerOnly_decPositive.bind fun _ =>
    ledgerOnly_dec.bind fun _ => ?_
  split
  · exact ledgerOnly_money.bind fun _ => ledgerOnly_require.bind fun _ =>
      ledgerOnly_insertFill.bind fun _ => ledgerOnly_ok
  · exact ledgerOnly_require.bind fun _ => ledgerOnly_money.bind fun _ => ledgerOnly_require.bind fun _ =>
      ledgerOnly_insertFill.bind fun _ => ledgerOnly_ok

theorem ledgerOnly_applyFills {fills : List Fill} : LedgerOnly (applyFills o b fills) := by
  induction fills generalizing b with
  | nil => exact ledgerOnly_ok
  | cons fill fills ih => exact ledgerOnly_applyFill.bind fun _ => ih

theorem ledgerOnly_applyCancel : LedgerOnly (applyCancel l out) := by
  unfold applyCancel
  split
  · exact ledgerOnly_require.bind fun _ => ledgerOnly_dec.bind fun _ => ledgerOnly_inserted.bind fun _ => ledgerOnly_ok
  · exact ledgerOnly_ok

theorem ledgerOnly_applyExecution : LedgerOnly (applyExecution sumText out at' l) := by
  refine ledgerOnly_require.bind fun _ => ?_
  split
  · exact fun _ h => by cases h
  · dsimp only
    split
    · exact ledgerOnly_require.bind fun _ => ledgerOnly_ok
    · refine ledgerOnly_require.bind fun _ => ?_
      split
      · exact fun _ h => by cases h
      · exact ledgerOnly_applyFills.bind fun _ => ledgerOnly_applyCancel.bind fun _ =>
          ledgerOnly_require.bind fun _ => ledgerOnly_dec.bind fun _ => ledgerOnly_ok

/-! ## Processing an order -/

/-- An order that passes its checks can be ended. -/
theorem ended_ok (h : o.check = .ok ()) (status : OrderStatus) (code : String) (observationId : Option String) :
    ∃ out, ended o status code observationId = .ok out ∧ out.orderId = o.orderId ∧ out.status = status ∧
      out.terminal = true := by
  obtain ⟨-, -, hsum⟩ := PendingOrder.check_ok h
  have hleft : ¬ o.requestedQuantity - (o.filledQuantity + (([] : List Fill).map Fill.quantity).sum) -
      o.remainingQuantity < 0 := by
    simp only [List.map_nil, List.sum_nil, add_zero]
    linarith
  unfold ended outcome
  rw [if_neg hleft]
  exact ⟨_, rfl, rfl, rfl, rfl⟩

/-- A live order that has expired is ended, whatever was observed. -/
theorem executePendingOrder_expired {receipt : ReceiptState} {fence : Option Fence}
    {risk : RiskSnapshot} {clock : ClockQuality}
    {liquidity : LiquidityTracker} {journal : List (String × Int)} (h : o.check = .ok ())
    (hlive : o.status.terminal = false) (he : o.expiresAt ≤ now) : ∃ out,
    executePendingOrder o receipt fence observations c risk clock now liquidity journal = .ok out ∧
      out.orderId = o.orderId ∧ out.status.terminal = true ∧ out.terminal = true := by
  have hended (status : OrderStatus) (code : String) (hs : status.terminal = true) : ∃ out,
      ended o status code none = .ok out ∧ out.orderId = o.orderId ∧ out.status.terminal = true ∧
        out.terminal = true := by
    obtain ⟨out, hout, hid, hstatus, ht⟩ := ended_ok h status code none
    exact ⟨out, hout, hid, hstatus ▸ hs, ht⟩
  unfold executePendingOrder
  split
  · exact hended .canceled "ACCOUNT_SCOPE_MISMATCH" rfl
  · split
    · exact hended .canceled "CLOCK_UNTRUSTED" rfl
    · rw [if_neg (by simp [hlive])]
      exact hended .expired "ORDER_EXPIRED" rfl

/-- Nothing is asked of an order that has not expired. -/
theorem Turn.unexpired (h : Turn hit₀ now o l l') (hne : ¬ o.expiresAt ≤ now) : Turn hit now o l l' :=
  { h with done := fun he => absurd he hne, missed := fun he => absurd he hne }

/-- The processing of a live order: it succeeds on an expired order, which is then final, exactly when the order is
readable. -/
theorem ends_processObservations {clock : Nat → Instant} (hb : Booked l) (ho : o ∈ l.orders) (hlive : o.status.terminal = false)
    (hr : Readable mgr now l o ↔ hit) :
    Job.Ends l (processObservations sumText mgr clock o.orderId observations c now true)
      (fun _ t => Turn hit now o l t) (fun e t => ∀ code, e = .execution code → Turn hit now o l t) := by
  apply Job.ends_bind (Q := fun y t => l = t ∧ y.order = o ∧ o.check = .ok () ∧
    ∀ row ∈ l.receipts, row.receiptId = o.receiptId → (receiptStateOf row true).check = .ok ())
  · apply Job.ends_look
    · intro y hy
      obtain ⟨horder, hcheck, hreceipt⟩ := loadOrder_checks ho hy
      exact ⟨rfl, horder, hcheck, fun row hrow hid => (hreceipt row hrow hid).2⟩
    · rintro e he code rfl
      refine Turn.idle hb ho fun _ hhit => ?_
      obtain ⟨hcheck, hreceipt, -⟩ := hr.mpr hhit
      rcases loadOrder_refuses ho he with hbad | ⟨row, hrow, hid, hbad⟩
      · exact hbad hcheck
      · exact hbad (hreceipt row hrow hid)
  rintro ⟨o', receipt, reservation⟩ _ ⟨rfl, rfl, hcheck, hreceipt⟩
  apply Job.ends_bind (Q := fun _ t => Turn False now o' l t ∧ t.orders = l.orders ∧ Readable mgr now l o')
  · apply Job.ends_txn
    · intro t fence ht
      refine ⟨Turn.of_fence hb ho (fun _ h => h) ht, ?_, hcheck, hreceipt, establishFence_checks ht⟩
      rcases (establishFence_ok ht).1 with rfl | ⟨f, hf⟩
      · rfl
      · rw [hf.frame]
    · rintro e he code rfl
      refine Turn.idle hb ho fun _ hhit => ?_
      obtain ⟨f, hf, hbad⟩ := @establishFence_refuses _ now _ _ _ _ he
      exact hbad ((hr.mpr hhit).fence f hf)
  rintro fence t ⟨hturn, horders, hreadable⟩
  have hhit : hit := hr.mp hreadable
  apply Job.ends_bind (Q := fun _ u => t = u)
  · exact Job.ends_look (fun _ _ => rfl) fun e he code heq => absurd (heq ▸ he) (ledgerOnly_accountSnapshot code)
  rintro account _ rfl
  apply Job.ends_bind (Q := fun _ u => t = u) (Job.ends_read rfl)
  rintro liquidity _ rfl
  apply Job.ends_bind (Q := fun _ u => t = u) (Job.ends_read rfl)
  rintro journal _ rfl
  apply Job.ends_bind (Q := fun out u => t = u ∧ out.orderId = o'.orderId ∧
    (o'.expiresAt ≤ now → out.status.terminal = true ∧ out.terminal = true))
  · apply Job.ends_ofExcept
    · intro out hout
      refine ⟨rfl, (executePendingOrder_ok hout).1, fun he => ?_⟩
      obtain ⟨out', hout', -, hstatus, hterminal⟩ := executePendingOrder_expired hcheck hlive he
      rw [hout', Except.ok.injEq] at hout
      exact hout ▸ ⟨hstatus, hterminal⟩
    · rintro e he code rfl
      -- An expired order would have been ended.
      refine hturn.unexpired fun hexp => ?_
      obtain ⟨out', hout', -⟩ := executePendingOrder_expired hcheck hlive hexp
      rw [hout'] at he
      cases he
  rintro out _ ⟨rfl, hid, hout⟩
  split
  · apply Job.ends_bind (Q := fun _ u => Turn hit now o' l u)
    · apply Job.ends_txn
      · intro u r hu
        have ho' : o' ∈ t.orders := horders ▸ ho
        rcases applyExecution_ok hu with ⟨-, -, order, hmem, hoid, hterm⟩ | ⟨order, acc, b, added, happ⟩
        · obtain rfl : order = o' := eq_of_key_eq hmem ho' (hoid.trans hid)
          rw [hlive] at hterm
          cases hterm
        · obtain rfl : order = o' := eq_of_key_eq happ.order_mem ho' (happ.order_id.trans hid)
          exact hturn.applied happ (fun _ => hhit) fun he => (hout he).1
      · exact fun e he code heq => absurd (heq ▸ he) (ledgerOnly_applyExecution code)
    · intro _ u hu
      exact Job.ends_pure hu
  · next hquiet =>
    apply Job.ends_pure
    exact hturn.unexpired fun he => hquiet (.inr (hout he).2)

theorem ends_processRow {cfg : WorkerConfig} {c : Cycle} {observed : List MarketObservation} {tally : Tally}
    (hb : Booked l) (ho : o ∈ l.orders) (hlive : o.status.terminal = false) :
    Job.Ends l (processRow sumText cfg c observed k o tally)
      (fun _ t => Turn (Observed cfg c.now observed l o) c.now o l t) fun _ _ => True := by
  unfold processRow
  split
  · next hq => exact Job.ends_pure (Turn.idle hb ho fun _ hhit => hhit.quoted hq)
  · next hq =>
    cases hc : cfg.constraints o.asset with
    | none => exact Job.ends_pure (Turn.idle hb ho fun _ hhit => hhit.configured hc)
    | some constraints =>
      have hr : Readable cfg.manager c.now l o ↔ Observed cfg c.now observed l o :=
        ⟨fun h => ⟨hq, by rw [hc]; simp, h⟩, fun h => h.readable⟩
      apply Job.ends_bind (Job.ends_attempt (ends_processObservations hb ho hlive hr))
      rintro result t ⟨hok, herr⟩
      cases result with
      | ok outcome => exact Job.ends_pure (hok outcome rfl)
      | error e =>
        cases e with
        | execution code => exact Job.ends_pure (herr _ rfl code rfl)
        | ledger code => exact Job.ends_throw trivial
        | integrity => exact Job.ends_throw trivial

/-- A cancellation is refused for the order's id alone. -/
theorem cancelPendingOrder_refuses (ho : o ∈ l.orders)
    (h : cancelPendingOrder o.orderId "FEATURE_DISABLED" at' l = .error (.ledger code)) :
    validId o.orderId = false := by
  rcases bind_error h with h | ⟨_, -, h⟩
  · simpa using (require_error h).1
  rcases bind_error h with h | ⟨_, -, h⟩
  · exact absurd (by decide) (require_error h).1
  unfold cancelInTxn at h
  rw [Table.find?_eq_some.mpr ⟨ho, rfl⟩] at h
  dsimp only at h
  split at h
  · cases h
  · rcases bind_error h with h | ⟨_, -, h⟩
    · unfold insertCancel at h
      cases hins : l.cancels.insert? ⟨nextCancelId l o.orderId, o.orderId, o.remainingQuantity, "FEATURE_DISABLED"⟩ with
      | none =>
        rw [hins] at h
        cases h
      | some cancels =>
        rw [hins] at h
        cases h
    · cases h

theorem ends_cancelRow {c : Cycle} {code : Option String} (hb : Booked l) (ho : o ∈ l.orders)
    (hlive : o.status.terminal = false) :
    Job.Ends l (cancelRow c k o code) (fun _ t => Turn (Cancelable o) now o l t) fun _ _ => True := by
  unfold cancelRow
  split
  · next hside => exact Job.ends_pure (Turn.idle hb ho fun _ hhit => hside hhit.1)
  · next hside =>
    have hside : o.side = .buy := not_not.mp hside
    apply Job.ends_bind
    · apply Job.ends_attempt (Q := fun _ t => Turn (Cancelable o) now o l t)
        (F := fun e t => l = t ∧ ∀ code, e = .ledger code → ¬ Cancelable o)
      apply Job.ends_txn
      · intro t r ht
        have hvalid : validId o.orderId = true := by
          obtain ⟨_, hcheck, -⟩ := bind_ok ht
          exact require_ok hcheck
        rcases cancelInTxn_ok (cancelPendingOrder_ok ht) with ⟨-, order, hmem, hid, hterm⟩ | ⟨order, hid, hc⟩
        · obtain rfl : order = o := eq_of_key_eq hmem ho hid
          rw [hlive] at hterm
          cases hterm
        · obtain rfl : order = o := eq_of_key_eq hc.order_mem ho hid
          exact Turn.of_canceled hb hc ⟨hside, hvalid⟩
      · rintro e he
        refine ⟨rfl, ?_⟩
        rintro code rfl ⟨-, hvalid⟩
        rw [cancelPendingOrder_refuses ho he] at hvalid
        cases hvalid
    rintro result t ⟨hok, herr⟩
    cases result with
    | ok r => exact Job.ends_pure (hok r rfl)
    | error e =>
      obtain ⟨rfl, hrefused⟩ := herr e rfl
      cases e with
      | ledger code => exact Job.ends_pure (Turn.idle hb ho fun _ => hrefused code rfl)
      | execution code => exact Job.ends_throw trivial
      | integrity => exact Job.ends_throw trivial

end Docich.News
