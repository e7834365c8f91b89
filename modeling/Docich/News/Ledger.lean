import Docich.Durable.Table
import Docich.News.Execution

/-!
# The news ledger

The tables of the ledger and its transactions. A transaction is a function from the ledger to the ledger it commits
and its result, or to what it raises; what raises commits nothing.

* Rows keep the columns that some transaction or the manager reads back.
* Primary keys are the keys of the tables; the other unique columns are tested where a row is inserted.
* `sumText` is what SQLite's `SUM` makes of the quantities stored as text.
-/

namespace Docich.News

open Durable

/-! ## Rows -/

structure AccountRow where
  accountId : String
  runId : String
  scenarioId : String
  quoteCurrency : String
  initialCash : ℚ
  cash : ℚ
  revision : Nat

structure PositionRow where
  accountId : String
  asset : String
  quantity : ℚ
  avgCost : ℚ

inductive ReservationKind
  | cash
  | inventory
  deriving DecidableEq

structure ReservationRow where
  reservationId : String
  accountId : String
  orderId : String
  kind : ReservationKind
  asset : String
  quantity : ℚ
  amount : ℚ
  releasedAt : Option Instant

structure EventUseRow where
  eventUseId : String
  runId : String
  scenarioId : String
  eventGroupId : String
  asset : String
  receiptId : String

structure ReceiptDraft where
  receiptId : String
  runId : String
  scenarioId : String
  accountId : String
  decisionAt : Instant
  managerSeenAt : Instant
  inputCutoffSequence : Int
  signalRefs : List String
  marketRefs : List String
  decisionQuote : Option QuoteIdentity
  policyVersion : String
  riskPolicyVersion : String
  status : ReceiptStatus
  reasonCodes : List String
  supersedesReceiptId : Option String

/-- A stored receipt: its draft and what the two phases of the commit add. -/
structure ReceiptRow extends ReceiptDraft where
  orderRef : Option String
  receiptCommittedAt : Option Instant
  abandonedAt : Option Instant

structure CancelRow where
  cancelId : String
  orderId : String
  quantity : ℚ
  reasonCode : String

structure MarkerRow where
  markerId : String
  receiptId : String
  notBeforeAt : Instant
  committedAt : Instant

structure ValuationRow where
  valuationId : String
  accountId : String
  asOf : Instant
  totalEquity : ℚ

def PositionRow.key (r : PositionRow) : String × String := (r.accountId, r.asset)

structure Ledger where
  accounts : Table AccountRow.accountId
  positions : Table PositionRow.key
  reservations : Table ReservationRow.reservationId
  eventUses : Table EventUseRow.eventUseId
  receipts : Table (fun r : ReceiptRow => r.receiptId)
  orders : Table PendingOrder.orderId
  fills : Table Fill.fillId
  cancels : Table CancelRow.cancelId
  markers : Table MarkerRow.markerId
  fences : Table Fence.fenceId
  valuations : Table ValuationRow.valuationId

/-- A store without rows. -/
def Ledger.empty : Ledger :=
  ⟨.empty, .empty, .empty, .empty, .empty, .empty, .empty, .empty, .empty, .empty, .empty⟩

/-! ## Drafts -/

structure ReservationDraft where
  reservationId : String
  kind : ReservationKind
  asset : String
  quantity : ℚ
  amount : ℚ

structure EventUseDraft where
  eventUseId : String
  eventGroupId : String
  asset : String

structure OrderDraft where
  orderId : String
  asset : String
  side : Side
  requestedQuantity : ℚ
  expiresAt : Instant
  reservationId : String
  eventUseId : String

def checkCodes (codes : List String) : Except Raised Unit := do
  require (codes.length ≤ 16) (.ledger "PAYLOAD_LIMIT")
  require (∀ code ∈ codes, code ∈ reasonCodes) (.ledger "VALUE_OUT_OF_RANGE")
  require codes.Nodup (.ledger "DUPLICATE_JSON_KEY")

def checkRefs (refs : List String) : Except Raised Unit := do
  require (refs.length ≤ 20) (.ledger "PAYLOAD_LIMIT")
  require (∀ ref ∈ refs, validId ref) (.ledger "VALUE_OUT_OF_RANGE")
  require refs.Nodup (.ledger "DUPLICATE_JSON_KEY")

/-- A hexadecimal digest of 64 characters; the pattern's end also matches before one final newline. -/
def validDigest (s : String) : Bool :=
  let cs := s.toList
  let cs := if cs.getLast? = some '\n' then cs.dropLast else cs
  cs.length = 64 && cs.all fun ch => ch.isDigit || ('a' ≤ ch && ch ≤ 'f')

def checkQuote : Option QuoteIdentity → Except Raised Unit
  | none => .ok ()
  | some quote => do
    checkId quote.1
    checkId quote.2.1
    require (validDigest quote.2.2.2) (.ledger "VALUE_OUT_OF_RANGE")

def checkReceipt (r : ReceiptDraft) (orderRef : Option String) : Except Raised Unit := do
  require (r.status = .accepted ↔ orderRef.isSome) (.ledger "VALUE_OUT_OF_RANGE")
  checkCodes r.reasonCodes
  require (r.status = .accepted → r.reasonCodes ≠ []) (.ledger "VALUE_OUT_OF_RANGE")
  checkRefs r.signalRefs
  require (r.status = .accepted → r.signalRefs ≠ []) (.ledger "VALUE_OUT_OF_RANGE")
  checkRefs r.marketRefs
  require (r.status = .accepted → r.marketRefs ≠ []) (.ledger "VALUE_OUT_OF_RANGE")
  require (1 ≤ r.inputCutoffSequence) (.ledger "VALUE_OUT_OF_RANGE")
  checkQuote r.decisionQuote
  checkId r.runId
  checkId r.scenarioId
  checkId r.policyVersion
  checkId r.riskPolicyVersion
  match r.supersedesReceiptId with
  | none => .ok ()
  | some superseded => checkId superseded

def checkOrder (o : OrderDraft) : Except Raised Unit := do
  checkId o.asset
  let _ ← decPositive o.requestedQuantity

/-! ## Accounts -/

/-- A failed insertion is a broken constraint. -/
def inserted {α : Type} : Option α → Except Raised α
  | some t => .ok t
  | none => .error .integrity

def createAccount (accountId runId scenarioId : String) (initialCash : ℚ) (quoteCurrency : String) (l : Ledger) :
    Except Raised (Ledger × Unit) := do
  checkId accountId
  checkId runId
  checkId scenarioId
  let cash ← decPositive initialCash
  checkId quoteCurrency
  match l.accounts.find? accountId with
  | some row =>
    require (row.runId = runId ∧ row.scenarioId = scenarioId ∧ row.initialCash = cash
      ∧ row.quoteCurrency = quoteCurrency) (.ledger "ACCOUNT_SCOPE_MISMATCH")
    pure (l, ())
  | none => do
    let accounts ← inserted (l.accounts.insert? ⟨accountId, runId, scenarioId, quoteCurrency, cash, cash, 1⟩)
    pure ({ l with accounts := accounts }, ())

/-- The unreleased reservations of an account. -/
def ReservationRow.active (r : ReservationRow) (accountId : String) : Bool :=
  r.accountId = accountId && r.releasedAt.isNone

def ReservationRow.cashOf (r : ReservationRow) (accountId : String) : ℚ :=
  if r.active accountId ∧ r.kind = .cash then r.amount else 0

def ReservationRow.inventoryOf (r : ReservationRow) (accountId asset : String) : ℚ :=
  if r.active accountId ∧ r.kind = .inventory ∧ r.asset = asset then r.quantity else 0

structure AccountState where
  accountId : String
  cash : ℚ
  positions : List PositionRow
  cashReserved : ℚ
  inventoryReserved : String → ℚ
  pendingBuyAssets : Finset String

def AccountState.cashAvailable (a : AccountState) : ℚ := a.cash - a.cashReserved

def AccountState.position (a : AccountState) (asset : String) : Option PositionRow :=
  a.positions.find? fun r => r.asset = asset

/-- The quantity held of an asset. -/
def AccountState.held (a : AccountState) (asset : String) : ℚ := ((a.position asset).map PositionRow.quantity).getD 0

def AccountState.inventoryAvailable (a : AccountState) (asset : String) : ℚ :=
  a.held asset - a.inventoryReserved asset

def cashReserved (l : Ledger) (accountId : String) : ℚ := l.reservations.sum fun r => r.cashOf accountId

def inventoryReserved (l : Ledger) (accountId asset : String) : ℚ :=
  l.reservations.sum fun r => r.inventoryOf accountId asset

def pendingBuyAssets (l : Ledger) (accountId : String) : Finset String :=
  ((l.reservations.rows.filter fun r => r.active accountId && r.kind = .cash).map ReservationRow.asset).toFinset

def stateOf (l : Ledger) (row : AccountRow) : AccountState where
  accountId := row.accountId
  cash := row.cash
  positions := l.positions.rows.filter fun r => r.accountId = row.accountId
  cashReserved := cashReserved l row.accountId
  inventoryReserved := inventoryReserved l row.accountId
  pendingBuyAssets := pendingBuyAssets l row.accountId

def accountSnapshot (accountId : String) (l : Ledger) : Except Raised AccountState := do
  checkId accountId
  match l.accounts.find? accountId with
  | none => throw (.ledger "UNKNOWN_KEY")
  | some row => pure (stateOf l row)

def recordValuation (accountId valuationId : String) (asOf : Instant) (positionsValue totalEquity : ℚ) (l : Ledger) :
    Except Raised (Ledger × Unit) := do
  let _ ← accountSnapshot accountId l
  checkId valuationId
  let _ ← dec positionsValue
  require (isDec totalEquity) (.ledger "VALUE_OUT_OF_RANGE")
  let valuations ← inserted (l.valuations.insert? ⟨valuationId, accountId, asOf, totalEquity⟩)
  pure ({ l with valuations := valuations }, ())

/-- The recorded equities of an account in the order of their instants. -/
def equityHistory (l : Ledger) (accountId : String) : List (Instant × ℚ) :=
  ((l.valuations.rows.filter fun r => r.accountId = accountId).map fun r => (r.asOf, r.totalEquity)).insertionSort
    fun a b => a.1 ≤ b.1

/-! ## The first phase: receipt, reservation, pending order and event use -/

def orderOf (r : ReceiptDraft) (o : OrderDraft) (reservation : ReservationDraft) (use : EventUseDraft) : PendingOrder :=
  { orderId := o.orderId
    receiptId := r.receiptId
    runId := r.runId
    scenarioId := r.scenarioId
    accountId := r.accountId
    asset := o.asset
    side := o.side
    requestedQuantity := o.requestedQuantity
    remainingQuantity := o.requestedQuantity
    filledQuantity := 0
    status := .pending
    expiresAt := o.expiresAt
    acceptedAt := none
    notBeforeAt := none
    reservationId := reservation.reservationId
    eventUseId := use.eventUseId }

def reservationOf (r : ReceiptDraft) (o : OrderDraft) (reservation : ReservationDraft) : ReservationRow :=
  ⟨reservation.reservationId, r.accountId, o.orderId, reservation.kind, reservation.asset, reservation.quantity,
    reservation.amount, none⟩

def insertEventUse (l : Ledger) (r : ReceiptDraft) (use : EventUseDraft) :
    Except Raised (Table EventUseRow.eventUseId) := do
  checkId use.eventUseId
  checkId use.eventGroupId
  checkId use.asset
  require (∀ row ∈ l.eventUses.rows, ¬ (row.runId = r.runId ∧ row.scenarioId = r.scenarioId
    ∧ row.eventGroupId = use.eventGroupId ∧ row.asset = use.asset)) .integrity
  inserted (l.eventUses.insert?
    ⟨use.eventUseId, r.runId, r.scenarioId, use.eventGroupId, use.asset, r.receiptId⟩)

def insertReservation (l : Ledger) (r : ReceiptDraft) (o : OrderDraft) (reservation : ReservationDraft) :
    Except Raised (Table ReservationRow.reservationId) := do
  checkId reservation.reservationId
  let _ ← dec reservation.quantity
  let _ ← dec reservation.amount
  require (∀ row ∈ l.reservations.rows, row.orderId ≠ o.orderId) .integrity
  inserted (l.reservations.insert? (reservationOf r o reservation))

def insertOrder (l : Ledger) (order : PendingOrder) : Except Raised (Table PendingOrder.orderId) := do
  require (∀ row ∈ l.orders.rows, row.receiptId ≠ order.receiptId ∧ row.reservationId ≠ order.reservationId) .integrity
  inserted (l.orders.insert? order)

def insertReceipt (l : Ledger) (r : ReceiptDraft) (orderRef : Option String) :
    Except Raised (Table (fun r : ReceiptRow => r.receiptId)) := do
  require (r.supersedesReceiptId ≠ some r.receiptId) .integrity
  inserted (l.receipts.insert? { r with orderRef := orderRef, receiptCommittedAt := none, abandonedAt := none })

/-- The receipt belongs to a known account and its id is new. -/
def checkNewReceipt (l : Ledger) (r : ReceiptDraft) : Except Raised Unit := do
  require (l.accounts.find? r.accountId).isSome (.ledger "UNKNOWN_KEY")
  require (l.receipts.find? r.receiptId).isNone (.ledger "ORDER_ALREADY_FINAL")

def beginReceipt (r : ReceiptDraft) (o : OrderDraft) (reservation : ReservationDraft) (use : EventUseDraft)
    (l : Ledger) : Except Raised (Ledger × Unit) := do
  checkReceipt r (some o.orderId)
  checkOrder o
  checkNewReceipt l r
  let eventUses ← insertEventUse l r use
  let reservations ← insertReservation l r o reservation
  let orders ← insertOrder l (orderOf r o reservation use)
  let receipts ← insertReceipt l r (some o.orderId)
  pure ({ l with eventUses := eventUses, reservations := reservations, orders := orders, receipts := receipts }, ())

/-- A held or rejected decision: a receipt and nothing else. -/
def recordDecisionOnly (r : ReceiptDraft) (l : Ledger) : Except Raised (Ledger × Unit) := do
  require (r.status ≠ .accepted) (.ledger "VALUE_OUT_OF_RANGE")
  checkReceipt r none
  checkNewReceipt l r
  let receipts ← insertReceipt l r none
  pure ({ l with receipts := receipts }, ())

/-! ## The second phase -/

inductive CommitResult
  | committed
  | alreadyCommitted
  | expiredBeforeCommit
  deriving DecidableEq

def orderOfReceipt (l : Ledger) (receiptId : String) : Option PendingOrder :=
  l.orders.rows.find? fun o => o.receiptId = receiptId

def setCommitted (receiptId : String) (t2 : Instant) (l : Ledger) : Table (fun r : ReceiptRow => r.receiptId) :=
  l.receipts.update (fun r => r.receiptId = receiptId && r.receiptCommittedAt.isNone)
    (fun r => { r with receiptCommittedAt := some t2 }) (fun _ => rfl)

def setAccepted (orderId : String) (t2 notBefore : Instant) (l : Ledger) : Table PendingOrder.orderId :=
  l.orders.update (fun o => o.orderId = orderId && o.acceptedAt.isNone)
    (fun o => { o with acceptedAt := some t2, notBeforeAt := some notBefore }) (fun _ => rfl)

/-- The instant from which the order may be filled. -/
def notBeforeOf (t2 expiresAt : Instant) (delayMs : ℚ) : Instant := min (t2 + roundEven (delayMs * 1000)) expiresAt

def insertMarker (l : Ledger) (row : MarkerRow) : Except Raised (Table MarkerRow.markerId) := do
  require (∀ m ∈ l.markers.rows, m.receiptId ≠ row.receiptId) .integrity
  inserted (l.markers.insert? row)

def commitReceipt (receiptId : String) (executionDelayMs : ℚ) (t2 : Instant) (l : Ledger) :
    Except Raised (Ledger × CommitResult) := do
  checkId receiptId
  let delay ← dec executionDelayMs
  match l.receipts.find? receiptId, orderOfReceipt l receiptId with
  | some receipt, some order =>
    if receipt.receiptCommittedAt.isSome then
      pure (l, .alreadyCommitted)
    else do
      require (receipt.status = .accepted ∧ receipt.abandonedAt.isNone) (.ledger "ORDER_ALREADY_FINAL")
      if order.expiresAt ≤ t2 then
        pure (l, .expiredBeforeCommit)
      else do
        let notBefore := notBeforeOf t2 order.expiresAt delay
        require order.acceptedAt.isNone (.ledger "STORE_UNAVAILABLE")
        let markers ← insertMarker l ⟨"marker:" ++ receiptId, receiptId, notBefore, t2⟩
        pure ({ l with
          receipts := setCommitted receiptId t2 l
          orders := setAccepted order.orderId t2 notBefore l
          markers := markers }, .committed)
  | _, _ => .error (.ledger "RECEIPT_NOT_COMMITTED")

/-! ## Cancellation -/

structure ApplyResult where
  orderId : String
  previousStatus : OrderStatus
  status : OrderStatus
  appliedFills : Nat
  canceledQuantity : ℚ
  reservationReleased : Bool
  alreadyFinal : Bool

/-- The result of a call on an order that was final before it. -/
def alreadyFinalResult (orderId : String) (status : OrderStatus) : ApplyResult :=
  ⟨orderId, status, status, 0, 0, false, true⟩

def canceledOf (l : Ledger) (orderId : String) : List ℚ :=
  (l.cancels.rows.filter fun c => c.orderId = orderId).map CancelRow.quantity

/-- Cancel events of an order are numbered. -/
def nextCancelId (l : Ledger) (orderId : String) : String :=
  "cancel:" ++ orderId ++ ":" ++ toString ((canceledOf l orderId).length + 1)

def releaseReservation (orderId : String) (now : Instant) (l : Ledger) : Table ReservationRow.reservationId :=
  l.reservations.update (fun r => r.orderId = orderId && r.releasedAt.isNone)
    (fun r => { r with releasedAt := some now }) (fun _ => rfl)

def bumpRevision (accountId : String) (l : Ledger) : Table AccountRow.accountId :=
  l.accounts.update (fun a => a.accountId = accountId) (fun a => { a with revision := a.revision + 1 }) (fun _ => rfl)

def setCanceled (orderId : String) (l : Ledger) : Table PendingOrder.orderId :=
  l.orders.update (fun o => o.orderId = orderId) (fun o => { o with status := .canceled, remainingQuantity := 0 })
    (fun _ => rfl)

def insertCancel (l : Ledger) (orderId : String) (quantity : ℚ) (code : String) :
    Except Raised (Table CancelRow.cancelId) :=
  inserted (l.cancels.insert? ⟨nextCancelId l orderId, orderId, quantity, code⟩)

def cancelInTxn (orderId code : String) (now : Instant) (l : Ledger) : Except Raised (Ledger × ApplyResult) :=
  match l.orders.find? orderId with
  | none => .error (.ledger "UNKNOWN_KEY")
  | some order =>
    if order.status.terminal then
      .ok (l, alreadyFinalResult orderId order.status)
    else do
      let cancels ← insertCancel l orderId order.remainingQuantity code
      let released := l.reservations.rows.any fun r => r.orderId = orderId && r.releasedAt.isNone
      pure ({ l with
        cancels := cancels
        orders := setCanceled orderId l
        reservations := releaseReservation orderId now l
        accounts := bumpRevision order.accountId l },
        ⟨orderId, order.status, .canceled, 0, order.remainingQuantity, released, false⟩)

def cancelPendingOrder (orderId code : String) (now : Instant) (l : Ledger) :
    Except Raised (Ledger × ApplyResult) := do
  checkId orderId
  require (code ∈ reasonCodes) (.ledger "VALUE_OUT_OF_RANGE")
  cancelInTxn orderId code now l

def setAbandoned (receiptId : String) (now : Instant) (l : Ledger) : Table (fun r : ReceiptRow => r.receiptId) :=
  l.receipts.update (fun r => r.receiptId = receiptId && r.abandonedAt.isNone)
    (fun r => { r with abandonedAt := some now }) (fun _ => rfl)

def abandonReceipt (receiptId code : String) (now : Instant) (l : Ledger) : Except Raised (Ledger × Bool) := do
  checkId receiptId
  require (code ∈ reasonCodes) (.ledger "VALUE_OUT_OF_RANGE")
  match l.receipts.find? receiptId with
  | none => .error (.ledger "RECEIPT_NOT_COMMITTED")
  | some receipt =>
    if receipt.abandonedAt.isSome ∨ receipt.receiptCommittedAt.isSome then
      pure (l, false)
    else
      match orderOfReceipt l receiptId with
      | none => pure ({ l with receipts := setAbandoned receiptId now l }, true)
      | some order => do
        let canceled ← cancelInTxn order.orderId code now l
        pure ({ canceled.1 with receipts := setAbandoned receiptId now canceled.1 }, true)

/-! ## The fill fence -/

/-- The stored fence of a marker; the first one stored wins. -/
def establishFence (receiptId : String) (quality : ClockQuality) (workerId : String) (now : Instant) (l : Ledger) :
    Except Raised (Ledger × Option Fence) := do
  checkId receiptId
  match l.markers.rows.find? fun m => m.receiptId = receiptId with
  | none => pure (l, none)
  | some marker =>
    match l.fences.rows.find? fun f => f.markerId = marker.markerId with
    | some fence => do
      fence.check
      pure (l, some fence)
    | none => do
      let fence : Fence := ⟨"fence:" ++ receiptId, marker.markerId, receiptId, now, quality, workerId⟩
      let fences ← inserted (l.fences.insert? fence)
      fence.check
      pure ({ l with fences := fences }, some fence)

/-! ## The fill journal -/

def fillsOf (l : Ledger) (orderId : String) : List Fill := l.fills.rows.filter fun f => f.orderId = orderId

def filledKeys (l : Ledger) (orderId : String) : List (String × Int) :=
  (fillsOf l orderId).map fun f => (f.quoteRef, f.levelIndex)

/-- The quantity that the account's fills took of a level, on either side of the book. -/
def liquidityUsed (l : Ledger) (accountId observationId : String) (levelIndex : Int) : ℚ :=
  l.fills.sum fun f =>
    if f.accountId = accountId ∧ f.quoteRef = observationId ∧ f.levelIndex = levelIndex then f.quantity else 0

def eventUseExists (l : Ledger) (runId scenarioId eventGroupId asset : String) : Except Raised Bool := do
  checkId runId
  checkId scenarioId
  checkId eventGroupId
  checkId asset
  pure (l.eventUses.rows.any fun row => row.runId = runId && row.scenarioId = scenarioId
    && row.eventGroupId = eventGroupId && row.asset = asset)

def reservationForOrder (l : Ledger) (orderId : String) : Option ReservationRow :=
  l.reservations.rows.find? fun r => r.orderId = orderId

def pendingReceiptIds (l : Ledger) : List String :=
  (l.receipts.rows.filter fun r => r.status = .accepted && r.receiptCommittedAt.isNone && r.abandonedAt.isNone).map
    fun r => r.receiptId

/-! ## Applying an outcome -/

/-- The account and the order's position while the fills of an outcome are applied. -/
structure Books where
  cash : ℚ
  position : ℚ
  avgCost : ℚ
  fills : Table Fill.fillId

/-- The row of a fill: its scope comes from the order. -/
def fillRow (order : PendingOrder) (fill : Fill) : Fill :=
  { fill with orderId := order.orderId, receiptId := order.receiptId, accountId := order.accountId,
              asset := order.asset, side := order.side }

def insertFill (fills : Table Fill.fillId) (row : Fill) : Except Raised (Table Fill.fillId) := do
  checkId row.fillId
  let _ ← dec row.slippageBps
  checkId row.quoteRef
  require (0 ≤ row.levelIndex) .integrity
  require (∀ f ∈ fills.rows, ¬ (f.orderId = row.orderId ∧ f.quoteRef = row.quoteRef ∧ f.levelIndex = row.levelIndex))
    .integrity
  inserted (fills.insert? row)

def applyFill (order : PendingOrder) (b : Books) (fill : Fill) : Except Raised Books := do
  require (fill.orderId = order.orderId ∧ fill.side = order.side ∧ fill.asset = order.asset
    ∧ fill.accountId = order.accountId ∧ fill.receiptId = order.receiptId) (.ledger "ACCOUNT_SCOPE_MISMATCH")
  let quantity ← decPositive fill.quantity
  let price ← decPositive fill.price
  let fee ← dec fill.feeJpy
  let notional := quantity * price
  match fill.side with
  | .buy => do
    let cost ← money (notional + fee) true
    require (0 ≤ b.cash - cost) (.ledger "INSUFFICIENT_FUNDS")
    let fills ← insertFill b.fills (fillRow order fill)
    pure { cash := b.cash - cost
           position := b.position + quantity
           avgCost := (b.avgCost * b.position + notional) / (b.position + quantity)
           fills := fills }
  | .sell => do
    require (0 ≤ b.position - quantity) (.ledger "INSUFFICIENT_INVENTORY")
    let credit ← money (notional - fee) false
    require (0 ≤ b.cash + credit) (.ledger "INSUFFICIENT_FUNDS")
    let fills ← insertFill b.fills (fillRow order fill)
    pure { b with cash := b.cash + credit, position := b.position - quantity, fills := fills }

def applyFills (order : PendingOrder) : Books → List Fill → Except Raised Books
  | b, [] => .ok b
  | b, fill :: fills => do
    let b ← applyFill order b fill
    applyFills order b fills

/-- The fills of an outcome that are not stored yet. -/
def newFills (l : Ledger) (o : ExecutionOutcome) : List Fill :=
  o.fills.filter fun f => (f.quoteRef, f.levelIndex) ∉ filledKeys l o.orderId

/-- The account's cash and the order's position before the fills. -/
def openBooks (l : Ledger) (order : PendingOrder) (account : AccountRow) : Books :=
  let position := l.positions.find? (order.accountId, order.asset)
  ⟨account.cash, (position.map PositionRow.quantity).getD 0, (position.map PositionRow.avgCost).getD 0, l.fills⟩

/-- The stored cancel quantities of an order, summed by the database. -/
def storedCanceled (sumText : List ℚ → ℚ) (l : Ledger) (orderId : String) : ℚ :=
  if canceledOf l orderId = [] then 0 else sumText (canceledOf l orderId)

/-- The cancel event of an outcome, if it cancels anything, and the quantity it adds. -/
def applyCancel (l : Ledger) (o : ExecutionOutcome) : Except Raised (Table CancelRow.cancelId × ℚ) :=
  if 0 < o.canceledQuantity then do
    let code := o.reasonCodes.headD "IOC_REMAINDER_CANCELED"
    require (code ∈ reasonCodes) (.ledger "VALUE_OUT_OF_RANGE")
    let quantity ← dec o.canceledQuantity
    let cancels ← insertCancel l o.orderId quantity code
    pure (cancels, quantity)
  else
    .ok (l.cancels, 0)

def setExecuted (o : ExecutionOutcome) (filled : ℚ) (l : Ledger) : Table PendingOrder.orderId :=
  l.orders.update (fun row => row.orderId = o.orderId)
    (fun row => { row with status := o.status, filledQuantity := filled, remainingQuantity := o.remainingQuantity })
    (fun _ => rfl)

def setPosition (order : PendingOrder) (b : Books) (l : Ledger) : Table PositionRow.key :=
  if b.position = 0 then l.positions.delete (order.accountId, order.asset)
  else l.positions.upsert ⟨order.accountId, order.asset, b.position, b.avgCost⟩

def setCash (accountId : String) (cash : ℚ) (l : Ledger) : Table AccountRow.accountId :=
  l.accounts.update (fun a => a.accountId = accountId) (fun a => { a with cash := cash, revision := a.revision + 1 })
    (fun _ => rfl)

def applyExecution (sumText : List ℚ → ℚ) (o : ExecutionOutcome) (now : Instant) (l : Ledger) :
    Except Raised (Ledger × ApplyResult) := do
  checkId o.orderId
  match l.orders.find? o.orderId with
  | none => .error (.ledger "UNKNOWN_KEY")
  | some order =>
    let fresh := newFills l o
    if order.status.terminal then do
      require (fresh = []) (.ledger "ORDER_ALREADY_FINAL")
      pure (l, alreadyFinalResult o.orderId order.status)
    else do
      require (l.markers.rows.any fun m => m.receiptId = order.receiptId) (.ledger "RECEIPT_NOT_COMMITTED")
      match l.accounts.find? order.accountId with
      | none => .error .integrity
      | some account => do
        let books ← applyFills order (openBooks l order account) fresh
        let filled := order.filledQuantity + (fresh.map Fill.quantity).sum
        let cancel ← applyCancel l o
        require (order.requestedQuantity =
          filled + o.remainingQuantity + (storedCanceled sumText l o.orderId + cancel.2)) (.ledger "VALUE_OUT_OF_RANGE")
        let _ ← dec o.remainingQuantity
        pure ({ l with
          fills := books.fills
          cancels := cancel.1
          orders := setExecuted o filled l
          reservations := if o.status.terminal then releaseReservation o.orderId now l else l.reservations
          positions := setPosition order books l
          accounts := setCash order.accountId books.cash l },
          ⟨o.orderId, order.status, o.status, fresh.length, o.canceledQuantity, o.status.terminal, false⟩)

end Docich.News
