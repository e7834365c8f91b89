import Docich.News.Balance
import Docich.News.Fills
import Docich.News.Manager

/-!
# What an attempt does to the ledger

An attempt takes the ledger from one commit to the next by moves (`Move`): most are changes that only the ledger's own
checks guard (`Quiet`); the other two are an acceptance that `evaluate` sized on the account as it is (`Accepted`), and
an outcome that `executePendingOrder` computed from the ledger it is applied to (`Executed`). An attempt accepts in the
ledger it finds, and executes in that ledger or after it stored a fence.

`Left.moved` takes a property that every move keeps to all ledgers that attempts can leave behind.
-/

namespace Docich.News

open Durable List

variable {sumText : List ℚ → ℚ} {l l' : Ledger}

/-! ## Moves -/

inductive Quiet (l l' : Ledger) : Prop
  | opened {accountId : String} {cash : ℚ} (h : Opened accountId cash l l')
  | valued (h : l' = { l with valuations := l'.valuations })
  | decided {r : ReceiptDraft} (h : Decided r l l')
  | committed {receiptId : String} {t2 notBefore : Instant} {order : PendingOrder}
      (h : Committed receiptId t2 notBefore order l l')
  | fenced {receiptId : String} {fence : Fence} (h : Fenced receiptId fence l l')
  | canceled {order : PendingOrder} {code : String} {now : Instant} (h : Canceled order code now l l')
  | abandoned {receiptId : String} {now : Instant} (h : l' = { l with receipts := setAbandoned receiptId now l })

theorem Quiet.change (h : Quiet l l') : Change sumText l l' := by
  cases h with
  | opened h => exact .opened h
  | valued h => exact .valued h
  | decided h => exact .decided h
  | committed h => exact .committed h
  | fenced h => exact .fenced h
  | canceled h => exact .canceled h
  | abandoned h => exact .abandoned h

/-- The request of a call that asks for an acceptance. -/
def ManagerCall.request : ManagerCall → Option DecisionRequest
  | .submitCandidate q _ _ => some q
  | .reevaluateHeld original q => some { q with supersedesReceiptId := some original }
  | _ => none

/-- An acceptance, sized on the account of the ledger it is stored in. -/
structure Accepted (a : Attempt) (q : DecisionRequest) (account : AccountRow) (r : ReceiptDraft) (quantity : ℚ)
    (reservation : ReservationDraft) (l l' : Ledger) : Prop where
  called : a.call.request = some q
  account_mem : account ∈ l.accounts
  account_id : account.accountId = q.accountId
  decision : ∃ used notional, evaluate (stateOf l account) a.manager.riskPolicy
    (candidateOf q (lossState q l) used) = .ok (.accepted quantity reservation notional)
  draft : receiptDraft a.manager q .accepted [q.acceptReasonCode] = .ok r
  begun : Begun r (orderDraftOf q quantity) (reservationDraftOf q reservation) (eventUseDraftOf q) l l'

/-- An execution: its call and what it read. -/
structure Execution where
  orderId : String
  observations : List MarketObservation
  constraints : InstrumentConstraints
  now : Instant
  evidenceValid : Bool
  order : PendingOrder
  receipt : ReceiptRow
  fence : Option Fence
  account : AccountRow

/-- The attempt executes `x` in the ledger it finds: the rows are stored, and the fence is the one it gets. -/
structure Execution.Reads (x : Execution) (a : Attempt) (s : Ledger) : Prop where
  called : a.call = .processObservations x.orderId x.observations x.constraints x.now x.evidenceValid
  order_mem : x.order ∈ s.orders
  order_id : x.order.orderId = x.orderId
  order_ok : x.order.check = .ok ()
  receipt_mem : x.receipt ∈ s.receipts
  receipt_id : x.receipt.receiptId = x.order.receiptId
  account_mem : x.account ∈ s.accounts
  account_id : x.account.accountId = x.order.accountId
  fence : ∃ t, establishFence x.order.receiptId a.manager.clockQuality a.manager.workerId (a.clock 0) s = .ok (t, x.fence)

/-- What an execution computes from a ledger. -/
def Execution.run (x : Execution) (m : Manager) (l : Ledger) : Except Raised ExecutionOutcome :=
  executePendingOrder x.order (receiptStateOf x.receipt x.evidenceValid) x.fence x.observations x.constraints
    (headroomSnapshot (stateOf l x.account) m.riskPolicy (refPricesOf x.observations)
      (reservationForOrder l x.order.orderId)) m.clockQuality x.now
    (liquidityTracker l x.order.accountId x.observations) (filledKeys l x.order.orderId)

/-- An outcome that was computed from the ledger it is applied to. -/
structure Executed (sumText : List ℚ → ℚ) (a : Attempt) (x : Execution) (out : ExecutionOutcome) (now : Instant)
    (b : Books) (added : ℚ) (l l' : Ledger) : Prop where
  called : a.call = .processObservations x.orderId x.observations x.constraints x.now x.evidenceValid
  receipt_mem : x.receipt ∈ l.receipts
  receipt_id : x.receipt.receiptId = x.order.receiptId
  fence : ∀ f, x.fence = some f → f ∈ l.fences ∧ ∃ m ∈ l.markers, m.receiptId = x.order.receiptId ∧
    m.markerId = f.markerId
  run : x.run a.manager l = .ok out
  applied : Applied sumText out now x.order x.account b added l l'

/-- A move of an attempt that found the ledger `s`. -/
inductive Move (sumText : List ℚ → ℚ) (a : Attempt) (s l l' : Ledger) : Prop
  | quiet (h : Quiet l l')
  | accepted {q : DecisionRequest} {account : AccountRow} {r : ReceiptDraft} {quantity : ℚ}
      {reservation : ReservationDraft} (hl : l = s) (h : Accepted a q account r quantity reservation l l')
  | executed {x : Execution} {out : ExecutionOutcome} {now : Instant} {b : Books} {added : ℚ}
      (hl : l = { s with fences := l.fences }) (hr : x.Reads a s) (h : Executed sumText a x out now b added l l')

variable {a : Attempt} {C : Ledger → Attempt → Prop} {l₀ : Ledger} {attempts : List Attempt}

theorem Move.change {s : Ledger} (h : Move sumText a s l l') : Change sumText l l' := by
  cases h with
  | quiet h => exact h.change
  | accepted hl h => exact .begun h.begun
  | executed hl hr h => exact .applied h.applied

/-- The observation and the fence of an execution with fills. -/
def Execution.FilledFrom (x : Execution) (m : Manager) (l : Ledger) (out : ExecutionOutcome) (f : Fence)
    (o : MarketObservation) : Prop :=
  News.FilledFrom x.order (receiptStateOf x.receipt x.evidenceValid) x.fence x.observations x.constraints
    (headroomSnapshot (stateOf l x.account) m.riskPolicy (refPricesOf x.observations)
      (reservationForOrder l x.order.orderId)) m.clockQuality x.now
    (liquidityTracker l x.order.accountId x.observations) (filledKeys l x.order.orderId) out f o

def Execution.takes (x : Execution) (m : Manager) (l : Ledger) (o : MarketObservation) : List LevelTake :=
  let levels := availableLevels o x.order.side x.constraints
    (liquidityTracker l x.order.accountId x.observations) x.order.accountId
  plannedTakes x.order o x.constraints levels
    (affordableQuantity x.order.side levels x.constraints
      (headroomSnapshot (stateOf l x.account) m.riskPolicy (refPricesOf x.observations)
        (reservationForOrder l x.order.orderId)))
    (filledKeys l x.order.orderId)

section Executed

variable {a : Attempt} {x : Execution} {out : ExecutionOutcome} {now : Instant} {b : Books} {added : ℚ}

theorem Executed.filledFrom (h : Executed sumText a x out now b added l l') (hne : out.fills ≠ []) :
    ∃ f o, x.FilledFrom a.manager l out f o := (executePendingOrder_ok h.run).2 hne

/-- The new fills of an outcome are takes of one observation. -/
theorem Executed.new_fill (h : Executed sumText a x out now b added l l') {fill : Fill} (hf : fill ∈ newFills l out) :
    ∃ f o, x.FilledFrom a.manager l out f o ∧ ∃ isPartial, ∃ take ∈ x.takes a.manager l o,
      fill = takeFill x.order o x.constraints x.now isPartial take := by
  have hmem : fill ∈ out.fills := mem_of_mem_filter hf
  obtain ⟨f, o, hfrom⟩ := h.filledFrom (ne_nil_of_mem hmem)
  obtain ⟨isPartial, hfills⟩ := hfrom.fills
  rw [hfills] at hmem
  obtain ⟨take, ht, rfl⟩ := mem_map.mp hmem
  exact ⟨f, o, hfrom, isPartial, take, ht, rfl⟩

end Executed

theorem Quiet.fills (h : Quiet l l') : l'.fills = l.fills := by
  cases h with
  | opened h => rw [h.frame]
  | valued h => rw [h]
  | decided h => rw [h.frame]
  | committed h => exact h.fills
  | fenced h => rw [h.frame]
  | canceled h => exact h.fills
  | abandoned h => rw [h]

/-! ## Jobs -/

/-- The ledgers that moves of the attempt lead to from the one it found. -/
abbrev Moves (sumText : List ℚ → ℚ) (a : Attempt) (s l : Ledger) : Prop :=
  Relation.ReflTransGen (Move sumText a s) s l

section Jobs

variable {a : Attempt} {s : Ledger} {α : Type} {Q : α → Ledger → Prop}

/-- The ledgers of a job that an attempt runs are reached by its moves. -/
abbrev Goes (sumText : List ℚ → ℚ) (a : Attempt) (s l : Ledger) {α : Type} (m : LedgerJob α) (Q : α → Ledger → Prop) :
    Prop := Job.Holds (Moves sumText a s) l m Q

theorem goes_ret (x : α) : Goes sumText a s l (pure x) fun _ _ => True := Job.holds_pure trivial

theorem goes_read (g : Ledger → α) : Goes sumText a s l (Job.read g) fun _ _ => True := by
  constructor
  · intro t ht
    cases ht
  · intro _ _
    trivial

variable {receiptId orderId : String} {evidenceValid : Bool} {now : Instant} {q : DecisionRequest}
    {quantity : ℚ} {reservation : ReservationDraft}

theorem receiptRow_ok {row : ReceiptRow} (h : receiptRow receiptId l = .ok row) :
    row ∈ l.receipts ∧ row.receiptId = receiptId := by
  obtain ⟨_, -, h⟩ := bind_ok h
  split at h
  · cases h
  · next r hr =>
    cases h
    exact Table.find?_eq_some.mp hr

theorem orderRow_ok {order : PendingOrder} (h : orderRow orderId l = .ok order) :
    order ∈ l.orders ∧ order.orderId = orderId := by
  obtain ⟨_, -, h⟩ := bind_ok h
  split at h
  · cases h
  · next r hr =>
    cases h
    exact Table.find?_eq_some.mp hr

theorem accountSnapshot_ok {accountId : String} {account : AccountState} (h : accountSnapshot accountId l = .ok account) :
    ∃ row ∈ l.accounts, row.accountId = accountId ∧ account = stateOf l row := by
  obtain ⟨_, -, h⟩ := bind_ok h
  split at h
  · cases h
  · next row hrow =>
    cases h
    obtain ⟨hm, hid⟩ := Table.find?_eq_some.mp hrow
    exact ⟨row, hm, hid, rfl⟩

theorem loadOrder_ok {x : Loaded}
    (h : loadOrder orderId evidenceValid l = .ok x) :
    x.order ∈ l.orders ∧ x.order.orderId = orderId ∧ x.order.check = .ok () ∧
      x.reservation = reservationForOrder l orderId ∧ ∃ row ∈ l.receipts, row.receiptId = x.order.receiptId ∧ x.receipt = receiptStateOf row evidenceValid := by
  obtain ⟨order, ho, h⟩ := bind_ok h
  obtain ⟨row, hr, h⟩ := bind_ok h
  obtain ⟨_, hcheck, h⟩ := bind_ok h
  obtain ⟨_, -, h⟩ := bind_ok h
  cases h
  obtain ⟨hom, hid⟩ := orderRow_ok ho
  obtain ⟨hrm, hrid⟩ := receiptRow_ok hr
  exact ⟨hom, hid, hcheck, rfl, row, hrm, hrid, rfl⟩

variable (h : Moves sumText a s l)

include h

theorem goes_recordDecision (q : DecisionRequest) (status : ReceiptStatus)
    (codes : List String) : Goes sumText a s l (recordDecision a.manager q status codes) fun _ _ => True := by
  apply Job.holds_ofExcept
  intro draft _
  apply Job.holds_txn_bind
  intro t u ht
  constructor
  · exact h.tail (.quiet (.decided (recordDecisionOnly_ok ht)))
  · exact goes_read _

theorem moved_commit {delay : ℚ} {t2 : Instant} {x : CommitResult}
    (hc : commitReceipt receiptId delay t2 l = .ok (l', x)) : Moves sumText a s l' := by
  rcases commitReceipt_ok hc with rfl | ⟨order, notBefore, hcom⟩
  · exact h
  · exact h.tail (.quiet (.committed hcom))

theorem moved_abandon {code : String} {x : Bool}
    (hc : abandonReceipt receiptId code now l = .ok (l', x)) : Moves sumText a s l' := by
  rcases abandonReceipt_ok hc with rfl | ⟨m, hm, rfl⟩
  · exact h
  · rcases hm with rfl | ⟨order, -, hcan⟩
    · exact h.tail (.quiet (.abandoned rfl))
    · exact (h.tail (.quiet (.canceled hcan))).tail (.quiet (.abandoned rfl))

theorem goes_commitAfterT1 (receiptId : String) :
    Goes sumText a s l (commitAfterT1 a.manager a.clock receiptId) fun _ _ => True := by
  apply Job.holds_txn_bind
  intro t x ht
  have hm := moved_commit h ht
  constructor
  · exact hm
  · split
    · apply Job.holds_txn_bind
      intro u y hu
      constructor
      · exact moved_abandon hm hu
      · exact goes_read _
    · exact goes_read _

omit h

theorem beginAccepted_ok {m : Manager} {u : Unit}
    (h : beginAccepted m q quantity reservation l = .ok (l', u)) : ∃ r,
      receiptDraft m q .accepted [q.acceptReasonCode] = .ok r ∧
      Begun r (orderDraftOf q quantity) (reservationDraftOf q reservation) (eventUseDraftOf q) l l' := by
  obtain ⟨r, hr, h⟩ := bind_ok h
  exact ⟨r, hr, beginReceipt_ok h⟩

theorem goes_acceptDecided (hq : a.call.request = some q)
    {account : AccountRow} (hm : account ∈ s.accounts)
    (hid : account.accountId = q.accountId)
    (hd : ∃ used notional, evaluate (stateOf s account) a.manager.riskPolicy (candidateOf q (lossState q s) used) =
      .ok (.accepted quantity reservation notional)) :
    Goes sumText a s s (acceptDecided a.manager a.clock q quantity reservation) fun _ _ => True := by
  apply Job.holds_attempt_txn
  · intro t u ht
    obtain ⟨r, hr, hb⟩ := beginAccepted_ok ht
    have hmove : Moves sumText a s t := .single (.accepted rfl ⟨hq, hm, hid, hd, hr, hb⟩)
    exact ⟨hmove, goes_commitAfterT1 hmove q.receiptId⟩
  · intro e _
    dsimp only
    split
    · apply Job.holds_read
      split
      · exact goes_ret _
      · exact Job.holds_throw
    · split
      · exact goes_recordDecision .refl q _ _
      · exact Job.holds_throw

theorem goes_accept (hq : a.call.request = some q) :
    Goes sumText a s s (accept a.manager a.clock q) fun _ _ => True := by
  apply Job.holds_look
  intro account haccount
  obtain ⟨row, hm, hid, rfl⟩ := accountSnapshot_ok haccount
  apply Job.holds_look
  intro used _
  apply Job.holds_read
  apply Job.holds_ofExcept
  intro decision hd
  cases decision with
  | held codes => exact goes_recordDecision .refl q _ _
  | accepted quantity reservation notional => exact goes_acceptDecided hq hm hid ⟨used, notional, hd⟩

theorem goes_submitCandidate (hq : a.call.request = some q) (intent : Intent)
    (codes : List String) :
    Goes sumText a s s (submitCandidate a.manager a.clock q intent codes) fun _ _ => True := by
  apply Job.holds_ofExcept
  intro _ _
  apply Job.holds_read
  split
  · exact goes_ret _
  · split
    · exact goes_accept hq
    · apply Job.holds_ofExcept
      intro _ _
      exact goes_recordDecision .refl q _ _

theorem goes_reevaluateHeld {original : String}
    (hq : a.call.request = some { q with supersedesReceiptId := some original }) :
    Goes sumText a s s (reevaluateHeld a.manager a.clock original q) fun _ _ => True := by
  apply Job.holds_look
  intro _ _
  apply Job.holds_ofExcept
  intro _ _
  exact goes_submitCandidate hq _ _

theorem goes_processObservations {observations : List MarketObservation}
    {c : InstrumentConstraints}
    (hcall : a.call = .processObservations orderId observations c now evidenceValid) :
    Goes sumText a s s (processObservations sumText a.manager a.clock orderId observations c now evidenceValid)
      fun _ _ => True := by
  apply Job.holds_look
  rintro ⟨order, receipt, reservation⟩ hloaded
  obtain ⟨hos, hoid, hcheck, hres, row, hrs, hrid, hrow⟩ := loadOrder_ok hloaded
  apply Job.holds_txn_bind
  intro t fence ht
  obtain ⟨hl, hfence⟩ := establishFence_ok ht
  -- The fence is stored, or it was before; either way the tables that were read stay.
  have hreads : Moves sumText a s t ∧ t = { s with fences := t.fences } := by
    rcases hl with rfl | ⟨f, hf⟩
    · exact ⟨.refl, rfl⟩
    · exact ⟨.single (.quiet (.fenced hf)), hf.frame⟩
  obtain ⟨hm, hbase⟩ := hreads
  have hom : order ∈ t.orders := by rw [hbase]; exact hos
  have hrm : row ∈ t.receipts := by rw [hbase]; exact hrs
  have hmarkers : t.markers = s.markers := by rw [hbase]
  have hres : reservation = reservationForOrder t order.orderId := by rw [hbase, hoid]; exact hres
  refine ⟨hm, ?_⟩
  apply Job.holds_look
  intro account haccount
  obtain ⟨arow, ham, haid, rfl⟩ := accountSnapshot_ok haccount
  apply Job.holds_read
  apply Job.holds_read
  apply Job.holds_ofExcept
  intro out hout
  split
  · apply Job.holds_txn_bind
    intro u y hu
    rw [hrow, hres] at hout
    refine ⟨?_, goes_ret _⟩
    rcases applyExecution_ok hu with ⟨rfl, -⟩ | ⟨o, acc, b, added, happ⟩
    · exact hm
    · have hoo : o = order :=
        Table.eq_of_key_eq happ.order_mem hom (happ.order_id.trans (executePendingOrder_ok hout).1)
      subst hoo
      have haa : acc = arow := Table.eq_of_key_eq happ.account_mem ham (happ.account_id.trans haid.symm)
      subst haa
      have hacc : acc ∈ s.accounts := by rw [hbase] at ham; exact ham
      -- Named, so that the rows are not compared field by field below.
      obtain ⟨x, hx⟩ : ∃ x : Execution, x = ⟨orderId, observations, c, now, evidenceValid, o, row, fence, acc⟩ := ⟨_, rfl⟩
      have hreads : x.Reads a s := by
        subst hx
        constructor
        · exact hcall
        · exact hos
        · exact hoid
        · exact hcheck
        · exact hrs
        · exact hrid
        · exact hacc
        · exact haid
        · exact ⟨t, ht⟩
      have hexec : Executed sumText a x out (a.clock 1) b added t u := by
        subst hx
        constructor
        · exact hcall
        · exact hrm
        · exact hrid
        · intro f hf
          rw [hmarkers]
          exact hfence f hf
        · exact hout
        · exact happ
      exact hm.tail (.executed hbase hreads hexec)
  · exact goes_ret _

include h

theorem goes_cancelPending (receiptId code : String) :
    Goes sumText a s l (cancelPending a.clock receiptId code) fun _ _ => True := by
  apply Job.holds_look
  intro row _
  split
  · exact Job.holds_throw
  · apply Job.holds_txn
    intro t x ht
    rcases cancelInTxn_ok (cancelPendingOrder_ok ht) with ⟨rfl, -⟩ | ⟨order, -, hc⟩
    · exact ⟨h, trivial⟩
    · exact ⟨h.tail (.quiet (.canceled hc)), trivial⟩

theorem goes_recoverEach (k : Nat) (pending : List String) :
    Goes sumText a s l (recoverEach a.manager a.clock k pending) fun _ t => Moves sumText a s t := by
  induction pending generalizing k l with
  | nil => exact Job.holds_pure h
  | cons receiptId rest ih =>
    apply Job.holds_txn_bind
    intro t x ht
    have hm := moved_commit h ht
    refine ⟨hm, ?_⟩
    split
    · apply Job.holds_txn_bind
      intro u y hu
      have hm' := moved_abandon hm hu
      exact ⟨hm', Job.holds_bind (ih hm' _) (fun _ _ hv => Job.holds_pure hv)⟩
    · exact Job.holds_bind (ih hm _) (fun _ _ hv => Job.holds_pure hv)

theorem goes_recover :
    Goes sumText a s l (recover a.manager a.clock) fun _ t => Moves sumText a s t := by
  apply Job.holds_read
  exact goes_recoverEach h 0 _

omit h

/-- Every commit of an attempt is reached by its moves. -/
theorem goes_job : Goes sumText a s s (a.job sumText) fun _ _ => True := by
  unfold Attempt.job
  split
  · apply Job.holds_txn
    intro t x ht
    rcases createAccount_ok ht with rfl | ho
    · exact ⟨.refl, trivial⟩
    · exact ⟨.single (.quiet (.opened ho)), trivial⟩
  · apply Job.holds_txn
    intro t x ht
    obtain ⟨valuations, rfl⟩ := recordValuation_ok ht
    exact ⟨.single (.quiet (.valued rfl)), trivial⟩
  · next q intent codes hc =>
    exact Job.holds_bind (goes_submitCandidate (by rw [hc]; rfl) intent codes) (fun _ _ _ => goes_ret _)
  · next original q hc =>
    exact Job.holds_bind (goes_reevaluateHeld (by rw [hc]; rfl)) (fun _ _ _ => goes_ret _)
  · next id observations c now evidenceValid hc =>
    exact Job.holds_bind (goes_processObservations hc) (fun _ _ _ => goes_ret _)
  · exact Job.holds_bind (goes_cancelPending .refl _ _) (fun _ _ _ => goes_ret _)
  · exact Job.holds_bind (goes_recover .refl) (fun _ _ _ => goes_ret _)

end Jobs

/-! ## Runs -/

/-- What an attempt leaves behind is reached by its moves. -/
theorem moves_of_leaves (h : (a.job sumText).Leaves l l') : Moves sumText a l l' :=
  goes_job.leaves .refl h

/-- A property that every move of the attempts keeps holds of every ledger they leave behind. -/
theorem Left.moved {P : Ledger → Prop}
    (hP : ∀ a s m m', C s a → Move sumText a s m m' → P m → P m') (h0 : P l₀)
    (h : Left sumText C l₀ attempts l) : P l := by
  induction h with
  | start => exact h0
  | step h a hc hs ih =>
    have hmoves := moves_of_leaves hs
    clear hs
    induction hmoves with
    | refl => exact ih
    | tail _ hlast ih' => exact hP _ _ _ _ hc hlast ih'

theorem Left.mono {D : Ledger → Attempt → Prop}
    (h : Left sumText C l₀ attempts l) (hD : ∀ s, ∀ a ∈ attempts, C s a → D s a) : Left sumText D l₀ attempts l := by
  induction h with
  | start => exact .start
  | step h a hc hs ih =>
    apply Left.step (ih (fun s b hb => hD s b (mem_cons_of_mem _ hb))) a ?_ hs
    exact hD _ a mem_cons_self hc

/-- The ledger after attempts that all ran to their end, the last attempt first. -/
def ranAll (sumText : List ℚ → ℚ) : List Attempt → Ledger
  | [] => .empty
  | a :: attempts => (a.job sumText).last (ranAll sumText attempts)

def MeetsAll (sumText : List ℚ → ℚ) (C : Ledger → Attempt → Prop) : List Attempt → Prop
  | [] => True
  | a :: attempts => C (ranAll sumText attempts) a ∧ MeetsAll sumText C attempts

theorem left_ranAll (h : MeetsAll sumText C attempts) :
    Left sumText C .empty attempts (ranAll sumText attempts) := by
  induction attempts with
  | nil => exact .start
  | cons a attempts ih => exact .step (ih h.2) a h.1 (Job.leaves_last _ _)

end Docich.News
