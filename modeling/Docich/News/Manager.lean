import Docich.News.Effects
import Docich.News.Risk
import Docich.Durable.Job

/-!
# The decision manager

The calls of the manager as jobs over the ledger: each reads, and commits one transaction after another. An attempt is
a call with its manager and its clock; the process can die in it after any transaction, so an attempt leaves the
ledger it found or one that it committed (`Job.Leaves`), and a run is a list of attempts.

The clock of an attempt gives its samples in their order.
-/

namespace Docich.News

open Durable

abbrev LedgerJob := Job Ledger Raised

/-! ## Values -/

structure Manager where
  clockQuality : ClockQuality
  riskPolicy : RiskPolicy
  policyVersion : String
  executionDelayMs : ℚ
  workerId : String
  executionDelayMs_nonneg : 0 ≤ executionDelayMs

structure DecisionRequest where
  receiptId : String
  runId : String
  scenarioId : String
  accountId : String
  decisionAt : Instant
  managerSeenAt : Instant
  inputCutoffSequence : Int
  signalRefs : List String
  marketRefs : List String
  decisionQuote : Option QuoteIdentity
  asset : String
  side : Side
  referencePrice : ℚ
  expiresAt : Instant
  constraints : InstrumentConstraints
  eventGroupId : String
  quantityCap : Option ℚ
  acceptReasonCode : String
  supersedesReceiptId : Option String
  dailyPnl : Option ℚ
  peakEquity : Option ℚ
  currentEquity : Option ℚ

inductive Intent
  | accept
  | held
  | rejected
  deriving DecidableEq

def acceptReasonCodes : List String := ["NEWS_PRICE_AGREE", "NEWS_ONLY_ELIGIBLE", "RISK_EXIT"]

def receiptDraft (m : Manager) (q : DecisionRequest) (status : ReceiptStatus) (codes : List String) :
    Except Raised ReceiptDraft := do
  require (status = .accepted → q.acceptReasonCode ∈ acceptReasonCodes) (.ledger "VALUE_OUT_OF_RANGE")
  pure { receiptId := q.receiptId, runId := q.runId, scenarioId := q.scenarioId, accountId := q.accountId,
         decisionAt := q.decisionAt, managerSeenAt := q.managerSeenAt, inputCutoffSequence := q.inputCutoffSequence,
         signalRefs := q.signalRefs, marketRefs := q.marketRefs, decisionQuote := q.decisionQuote,
         policyVersion := m.policyVersion, riskPolicyVersion := m.riskPolicy.version, status := status,
         reasonCodes := codes, supersedesReceiptId := q.supersedesReceiptId }

/-! ## Reads -/

def receiptRow (receiptId : String) (l : Ledger) : Except Raised ReceiptRow := do
  checkId receiptId
  match l.receipts.find? receiptId with
  | none => throw (.ledger "UNKNOWN_KEY")
  | some row => pure row

/-- The stored receipt, if there is one. -/
def view (receiptId : String) (l : Ledger) : Option ReceiptRow := (receiptRow receiptId l).toOption

def orderRow (orderId : String) (l : Ledger) : Except Raised PendingOrder := do
  checkId orderId
  match l.orders.find? orderId with
  | none => throw (.ledger "UNKNOWN_KEY")
  | some row => pure row

def dayOf (t : Instant) : Int := t / 86400000000

structure LossState where
  dailyPnl : ℚ
  peak : Option ℚ
  current : Option ℚ

/-- The loss of the day and of the peak, from the recorded equities. -/
def lossState (q : DecisionRequest) (l : Ledger) : LossState :=
  let history := equityHistory l q.accountId
  match history.getLast? with
  | none => ⟨0, none, none⟩
  | some last =>
    let opening := history.find? fun e => dayOf e.1 = dayOf q.decisionAt
    ⟨(opening.map fun e => last.2 - e.2).getD 0, some ((history.map Prod.snd).foldl max last.2), some last.2⟩

/-- What the constructor of a receipt state checks. -/
def ReceiptState.check (r : ReceiptState) : Except Raised Unit := do
  checkText r.receiptId 128
  require (1 ≤ r.inputCutoffSequence) (.execution "VALUE_OUT_OF_RANGE")

def receiptStateOf (row : ReceiptRow) (evidenceValid : Bool) : ReceiptState where
  receiptId := row.receiptId
  status := row.status
  inputCutoffSequence := row.inputCutoffSequence
  receiptCommittedAt := row.receiptCommittedAt
  decisionQuote := row.decisionQuote
  evidenceValid := evidenceValid

/-- An order with its receipt and its reservation. -/
structure Loaded where
  order : PendingOrder
  receipt : ReceiptState
  reservation : Option ReservationRow

def loadOrder (orderId : String) (evidenceValid : Bool) (l : Ledger) : Except Raised Loaded := do
  let order ← orderRow orderId l
  let row ← receiptRow order.receiptId l
  order.check
  let receipt := receiptStateOf row evidenceValid
  receipt.check
  pure ⟨order, receipt, reservationForOrder l orderId⟩

/-- The middle price of an asset's last observation. -/
def refPricesOf (observations : List MarketObservation) (asset : String) : Option ℚ :=
  ((observations.filter fun o => o.asset = asset).getLast?).map fun o => (o.bid + o.ask) / 2

/-- What the account took of each observation, counted once for every time the observation was handed over. -/
def liquidityTracker (l : Ledger) (accountId : String) (observations : List MarketObservation) : LiquidityTracker :=
  fun account observationId level =>
    if account = accountId then
      (observations.filter fun o => o.observationId = observationId).length * liquidityUsed l accountId observationId level
    else
      0

/-! ## Decisions -/

section Calls

variable (sumText : List ℚ → ℚ) (m : Manager) (clock : Nat → Instant)

/-- A receipt and nothing else. -/
def recordDecision (q : DecisionRequest) (status : ReceiptStatus) (codes : List String) :
    LedgerJob (Option ReceiptRow) := do
  let draft ← Job.ofExcept (receiptDraft m q status codes)
  let _ ← Job.txn (recordDecisionOnly draft)
  Job.read (view q.receiptId)

/-- The second phase; a receipt that is too late for it is given up. -/
def commitAfterT1 (receiptId : String) : LedgerJob (Option ReceiptRow) := do
  let result ← Job.txn (commitReceipt receiptId m.executionDelayMs (clock 0))
  if result = .expiredBeforeCommit then do
    let _ ← Job.txn (abandonReceipt receiptId "RECEIPT_NOT_COMMITTED" (clock 1))
    Job.read (view receiptId)
  else
    Job.read (view receiptId)

def candidateOf (q : DecisionRequest) (losses : LossState) (eventAlreadyUsed : Bool) : Candidate where
  side := q.side
  asset := q.asset
  refPrice := q.referencePrice
  constraints := q.constraints
  now := q.decisionAt
  expiresAt := q.expiresAt
  quantityCap := q.quantityCap
  dailyPnl := q.dailyPnl.getD losses.dailyPnl
  peakEquity := q.peakEquity <|> losses.peak
  currentEquity := q.currentEquity <|> losses.current
  eventAlreadyUsed := eventAlreadyUsed

def eventUseIdOf (q : DecisionRequest) : String :=
  "event_use:" ++ q.runId ++ ":" ++ q.scenarioId ++ ":" ++ q.eventGroupId ++ ":" ++ q.asset

def orderDraftOf (q : DecisionRequest) (quantity : ℚ) : OrderDraft where
  orderId := "paper_order:" ++ q.receiptId
  asset := q.asset
  side := q.side
  requestedQuantity := quantity
  expiresAt := q.expiresAt
  reservationId := "res:" ++ q.receiptId
  eventUseId := eventUseIdOf q

def reservationDraftOf (q : DecisionRequest) (reservation : ReservationDraft) : ReservationDraft :=
  { reservation with reservationId := "res:" ++ q.receiptId }

def eventUseDraftOf (q : DecisionRequest) : EventUseDraft := ⟨eventUseIdOf q, q.eventGroupId, q.asset⟩

/-- The first phase of an acceptance. -/
def beginAccepted (q : DecisionRequest) (quantity : ℚ) (reservation : ReservationDraft) (l : Ledger) :
    Except Raised (Ledger × Unit) := do
  let draft ← receiptDraft m q .accepted [q.acceptReasonCode]
  beginReceipt draft (orderDraftOf q quantity) (reservationDraftOf q reservation) (eventUseDraftOf q) l

def acceptDecided (q : DecisionRequest) (quantity : ℚ) (reservation : ReservationDraft) :
    LedgerJob (Option ReceiptRow) := do
  let begun ← Job.attempt (Job.txn (beginAccepted m q quantity reservation))
  match begun with
  | .ok _ => commitAfterT1 m clock q.receiptId
  | .error e =>
    if e = .ledger "ORDER_ALREADY_FINAL" then do
      let row ← Job.read (view q.receiptId)
      if row.isSome then pure row else Job.throw e
    else if e = .ledger "EVENT_ALREADY_USED" then
      recordDecision m q .held ["EVENT_ALREADY_USED"]
    else
      Job.throw e

def accept (q : DecisionRequest) : LedgerJob (Option ReceiptRow) := do
  let account ← Job.look (accountSnapshot q.accountId)
  let used ← Job.look fun l => eventUseExists l q.runId q.scenarioId q.eventGroupId q.asset
  let losses ← Job.read (lossState q)
  let decision ← Job.ofExcept (evaluate account m.riskPolicy (candidateOf q losses used))
  match decision with
  | .held codes => recordDecision m q .held codes
  | .accepted quantity reservation _ => acceptDecided m clock q quantity reservation

/-- The status of a receipt that carries no order. -/
def Intent.status : Intent → ReceiptStatus
  | .accept => .accepted
  | .held => .held
  | .rejected => .rejected

def submitCandidate (q : DecisionRequest) (intent : Intent) (codes : List String) : LedgerJob (Option ReceiptRow) := do
  Job.ofExcept (require m.clockQuality.trusted (.ledger "CLOCK_UNTRUSTED"))
  let existing ← Job.read (view q.receiptId)
  if existing.isSome then
    pure existing
  else if intent = .accept then
    accept m clock q
  else do
    Job.ofExcept (require (codes ≠ [] ∧ ∀ code ∈ codes, code ∈ reasonCodes) (.ledger "VALUE_OUT_OF_RANGE"))
    recordDecision m q intent.status codes

/-- A held candidate is evaluated again under a receipt of its own. -/
def reevaluateHeld (originalReceiptId : String) (q : DecisionRequest) : LedgerJob (Option ReceiptRow) := do
  let original ← Job.look (receiptRow originalReceiptId)
  Job.ofExcept (require (original.status = .held) (.ledger "VALUE_OUT_OF_RANGE"))
  submitCandidate m clock { q with supersedesReceiptId := some originalReceiptId } .accept []

/-! ## Execution -/

def processObservations (orderId : String) (observations : List MarketObservation) (c : InstrumentConstraints)
    (now : Instant) (evidenceValid : Bool) : LedgerJob ExecutionOutcome := do
  let loaded ← Job.look (loadOrder orderId evidenceValid)
  let fence ← Job.txn (establishFence loaded.order.receiptId m.clockQuality m.workerId (clock 0))
  let account ← Job.look (accountSnapshot loaded.order.accountId)
  let liquidity ← Job.read fun l => liquidityTracker l loaded.order.accountId observations
  let journal ← Job.read fun l => filledKeys l loaded.order.orderId
  let risk := headroomSnapshot account m.riskPolicy (refPricesOf observations) loaded.reservation
  let outcome ← Job.ofExcept (executePendingOrder loaded.order loaded.receipt fence observations c risk m.clockQuality
    now liquidity journal)
  if outcome.fills ≠ [] ∨ outcome.terminal then do
    let _ ← Job.txn (applyExecution sumText outcome (clock 1))
    pure outcome
  else
    pure outcome

def cancelPending (receiptId code : String) : LedgerJob ApplyResult := do
  let row ← Job.look (receiptRow receiptId)
  match row.orderRef with
  | none => Job.throw (.ledger "ORDER_ALREADY_FINAL")
  | some orderId => Job.txn (cancelPendingOrder orderId code (clock 0))

/-! ## Recovery -/

/-- Each receipt in its turn, from the clock's sample `k` on. -/
def recoverEach : Nat → List String → LedgerJob (List String × List String)
  | _, [] => pure ([], [])
  | k, receiptId :: rest => do
    let result ← Job.txn (commitReceipt receiptId m.executionDelayMs (clock k))
    if result = .expiredBeforeCommit then do
      let _ ← Job.txn (abandonReceipt receiptId "RECEIPT_NOT_COMMITTED" (clock (k + 1)))
      let done ← recoverEach (k + 2) rest
      pure (done.1, receiptId :: done.2)
    else do
      let done ← recoverEach (k + 1) rest
      pure (if result = .committed then receiptId :: done.1 else done.1, done.2)

def recover : LedgerJob (List String × List String) := do
  let pending ← Job.read pendingReceiptIds
  recoverEach m clock 0 pending

end Calls

/-! ## Attempts -/

/-- A call of the host: on the manager, or on its ledger's accounts and valuations. -/
inductive ManagerCall
  | createAccount (accountId runId scenarioId : String) (initialCash : ℚ) (quoteCurrency : String)
  | recordValuation (accountId valuationId : String) (asOf : Instant) (positionsValue totalEquity : ℚ)
  | submitCandidate (q : DecisionRequest) (intent : Intent) (codes : List String)
  | reevaluateHeld (originalReceiptId : String) (q : DecisionRequest)
  | processObservations (orderId : String) (observations : List MarketObservation) (c : InstrumentConstraints)
    (now : Instant) (evidenceValid : Bool)
  | cancelPending (receiptId code : String)
  | recover

structure Attempt where
  manager : Manager
  clock : Nat → Instant
  call : ManagerCall

def Attempt.job (sumText : List ℚ → ℚ) (a : Attempt) : LedgerJob Unit :=
  match a.call with
  | .createAccount id run scenario cash currency => Job.txn (News.createAccount id run scenario cash currency)
  | .recordValuation id valuation asOf value equity => Job.txn (News.recordValuation id valuation asOf value equity)
  | .submitCandidate q intent codes => do
    let _ ← News.submitCandidate a.manager a.clock q intent codes
    pure ()
  | .reevaluateHeld original q => do
    let _ ← News.reevaluateHeld a.manager a.clock original q
    pure ()
  | .processObservations id observations c now evidenceValid => do
    let _ ← News.processObservations sumText a.manager a.clock id observations c now evidenceValid
    pure ()
  | .cancelPending id code => do
    let _ ← News.cancelPending a.clock id code
    pure ()
  | .recover => do
    let _ ← News.recover a.manager a.clock
    pure ()

/-- The ledgers that attempts on a given ledger can leave behind, the last attempt first, each attempt under a condition
on the ledger it finds. -/
inductive Left (sumText : List ℚ → ℚ) (C : Ledger → Attempt → Prop) (l₀ : Ledger) : List Attempt → Ledger → Prop
  | start : Left sumText C l₀ [] l₀
  | step {attempts : List Attempt} {l l' : Ledger} (h : Left sumText C l₀ attempts l) (a : Attempt) (hc : C l a)
      (hs : (a.job sumText).Leaves l l') : Left sumText C l₀ (a :: attempts) l'

/-- No condition. -/
def Always (_ : Ledger) (_ : Attempt) : Prop := True

end Docich.News
