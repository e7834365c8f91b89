import Docich.News.Manager
import Docich.News.ObservationQueue

/-!
# The worker's cycle

`runOnce` is one cycle of the risk loop: drain the queue, cancel the pending buys when entries are disabled, process
the pending orders of the assets that were observed, submit the candidates, record a valuation.

* What the world gives a cycle is a `Cycle`: the instant, what the sources hand over, and the clock of each call on the
  ledger. The heartbeat file is not part of the ledger and left out.
* A cycle catches what its calls raise, as the source does: `LedgerError` from a cancellation, `ExecutionError` from
  the processing of an order, and from a submission a `LedgerError` that is not fatal.
-/

namespace Docich.News

open Durable

/-! ## The worker -/

structure WorkerConfig where
  accountId : String
  entriesDisabled : Bool
  constraints : String → Option InstrumentConstraints
  manager : Manager
  queue : QueueConfig

structure Worker where
  queue : ObservationQueue
  seq : Nat
  instanceToken : String
  lastPrices : String → Option ℚ
  lastErrorCode : Option String

structure Cycle where
  now : Instant
  polled : Except Unit (List QueueEntry)
  candidates : Except Unit (List DecisionRequest)
  cancelClock : Nat → Nat → Instant
  processClock : Nat → Nat → Instant
  submitClock : Nat → Nat → Instant

structure CycleSummary where
  cycle : Nat
  asOf : Instant
  observations : Nat
  queueDepth : Nat
  fills : Nat
  accepted : Nat
  entriesDisabled : Bool
  lastErrorCode : Option String

def fatalCodes : List String :=
  ["STORE_UNAVAILABLE", "SCHEMA_VERSION_UNSUPPORTED", "STATE_PATH_FORBIDDEN", "CLOCK_UNTRUSTED"]

/-- Half-even rounding to the stored quantum. -/
def quantize (x : ℚ) : ℚ := roundEven (x / quantum) * quantum

/-! ## Observations -/

/-- A source that fails leaves a fixed code. -/
def Worker.poll (cfg : WorkerConfig) (c : Cycle) (w : Worker) : Worker :=
  match c.polled with
  | .ok entries => { w with queue := entries.foldl (fun q e => (q.push cfg.queue e).1) w.queue }
  | .error _ => { w with lastErrorCode := some "SOURCE_TIMEOUT" }

def Worker.observe (w : Worker) (o : MarketObservation) : Worker :=
  { w with lastPrices := Function.update w.lastPrices o.asset (some (quantize ((o.bid + o.ask) / 2))) }

/-- What the cycle drains from the queue. -/
def observations (cfg : WorkerConfig) (c : Cycle) (w : Worker) : List MarketObservation :=
  ((w.poll cfg c).queue.drain c.now).2

/-- The worker after the drain. -/
def Worker.drained (cfg : WorkerConfig) (c : Cycle) (w : Worker) : Worker :=
  let polled := { w with seq := w.seq + 1 }.poll cfg c
  (observations cfg c w).foldl Worker.observe { polled with queue := (polled.queue.drain c.now).1 }

def byAsset (observations : List MarketObservation) (asset : String) : List MarketObservation :=
  observations.filter fun o => o.asset = asset

/-! ## Pending orders -/

/-- The account's orders that are pending or partially filled. -/
def pendingOrderRows (accountId : String) (l : Ledger) : List PendingOrder :=
  l.orders.rows.filter fun o => o.accountId = accountId && !o.status.terminal

/-- One row after the other; the calls on the ledger are numbered. -/
def eachRow {σ : Type} (f : Nat → PendingOrder → σ → LedgerJob σ) : Nat → List PendingOrder → σ → LedgerJob σ
  | _, [], w => pure w
  | k, row :: rows, w => do
    let w ← f k row w
    eachRow f (k + 1) rows w

/-- A pending buy is canceled; a ledger that refuses leaves a fixed code. -/
def cancelRow (c : Cycle) (k : Nat) (row : PendingOrder) (lastErrorCode : Option String) :
    LedgerJob (Option String) :=
  if row.side ≠ .buy then
    pure lastErrorCode
  else do
    let result ← Job.attempt (Job.txn (cancelPendingOrder row.orderId "FEATURE_DISABLED" (c.cancelClock k 0)))
    match result with
    | .ok _ => pure lastErrorCode
    | .error (.ledger _) => pure (some "STORE_UNAVAILABLE")
    | .error e => Job.throw e

def cancelRiskIncreasingPending (cfg : WorkerConfig) (c : Cycle) (lastErrorCode : Option String) :
    LedgerJob (Option String) := do
  let rows ← Job.read (pendingOrderRows cfg.accountId)
  eachRow (cancelRow c) 0 rows lastErrorCode

def cancelWhenDisabled (cfg : WorkerConfig) (c : Cycle) (lastErrorCode : Option String) : LedgerJob (Option String) :=
  if cfg.entriesDisabled then cancelRiskIncreasingPending cfg c lastErrorCode else pure lastErrorCode

/-- The fills so far, or the acceptances so far, and the last error code. -/
structure Tally where
  count : Nat
  lastErrorCode : Option String

def Tally.add (t : Tally) (outcome : ExecutionOutcome) : Tally :=
  if outcome.fills = [] then t
  else ⟨t.count + outcome.fills.length, outcome.reasonCodes.head? <|> t.lastErrorCode⟩

/-- An order is processed when its asset was observed and is configured. -/
def processRow (sumText : List ℚ → ℚ) (cfg : WorkerConfig) (c : Cycle) (observed : List MarketObservation) (k : Nat)
    (row : PendingOrder) (t : Tally) : LedgerJob Tally :=
  if byAsset observed row.asset = [] then
    pure t
  else
    match cfg.constraints row.asset with
    | none => pure { t with lastErrorCode := some "FEATURE_DISABLED" }
    | some constraints => do
      let result ← Job.attempt (processObservations sumText cfg.manager (c.processClock k) row.orderId
        (byAsset observed row.asset) constraints c.now true)
      match result with
      | .ok outcome => pure (t.add outcome)
      | .error (.execution code) => pure { t with lastErrorCode := some code }
      | .error e => Job.throw e

def processPendingOrders (sumText : List ℚ → ℚ) (cfg : WorkerConfig) (c : Cycle) (observed : List MarketObservation)
    (lastErrorCode : Option String) : LedgerJob Tally := do
  let rows ← Job.read (pendingOrderRows cfg.accountId)
  eachRow (processRow sumText cfg c observed) 0 rows ⟨0, lastErrorCode⟩

/-! ## Candidates and valuation -/

/-- A submission that returns has stored the receipt that it returns. -/
def submitOne (cfg : WorkerConfig) (c : Cycle) (k : Nat) (q : DecisionRequest) (t : Tally) : LedgerJob Tally := do
  let result ← Job.attempt (submitCandidate cfg.manager (c.submitClock k) q .accept [])
  match result with
  | .ok (some view) => pure { t with count := t.count + if view.status = .accepted then 1 else 0 }
  | .ok none => Job.throw .integrity
  | .error (.ledger code) =>
    if code ∈ fatalCodes then Job.throw (.ledger code) else pure { t with lastErrorCode := some code }
  | .error e => Job.throw e

def submitEach (cfg : WorkerConfig) (c : Cycle) : Nat → List DecisionRequest → Tally → LedgerJob Tally
  | _, [], t => pure t
  | k, q :: requests, t => do
    let t ← submitOne cfg c k q t
    submitEach cfg c (k + 1) requests t

def submitCandidates (cfg : WorkerConfig) (c : Cycle) (lastErrorCode : Option String) : LedgerJob Tally :=
  if cfg.entriesDisabled then
    pure ⟨0, lastErrorCode⟩
  else
    match c.candidates with
    | .error _ => pure ⟨0, some "CLASSIFIER_UNAVAILABLE"⟩
    | .ok requests => submitEach cfg c 0 requests ⟨0, lastErrorCode⟩

/-- A position without a quote counts at its cost. -/
def Worker.positionsValue (w : Worker) (account : AccountState) : ℚ :=
  quantize (account.positions.map fun r => r.quantity * (w.lastPrices r.asset).getD r.avgCost).sum

def valuate (cfg : WorkerConfig) (c : Cycle) (w : Worker) : LedgerJob Unit := do
  let account ← Job.look (accountSnapshot cfg.accountId)
  let value := w.positionsValue account
  Job.txn (recordValuation cfg.accountId ("val:" ++ w.instanceToken ++ ":" ++ toString w.seq) c.now value
    (quantize (account.cash + value)))

/-! ## The cycle -/

def runOnce (sumText : List ℚ → ℚ) (cfg : WorkerConfig) (c : Cycle) (w : Worker) :
    LedgerJob (Worker × CycleSummary) := do
  let observed := observations cfg c w
  let w := w.drained cfg c
  let code ← cancelWhenDisabled cfg c w.lastErrorCode
  let filled ← processPendingOrders sumText cfg c observed code
  let accepted ← submitCandidates cfg c filled.lastErrorCode
  valuate cfg c w
  pure ({ w with lastErrorCode := accepted.lastErrorCode },
    ⟨w.seq, c.now, observed.length, w.queue.items.length, filled.count, accepted.count, cfg.entriesDisabled,
      accepted.lastErrorCode⟩)

end Docich.News
