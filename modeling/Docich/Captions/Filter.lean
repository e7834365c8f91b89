import Docich.Captions.Wire

/-!
# The caption filter

The state of the FFmpeg filter and what one frame does to it: serve the control socket, inject triplets from the queue,
and answer the pending request once its triplets are out.

* What libcaption encodes, the end-of-caption triplet and the size of the queue are parameters (`Codec`).
* What the socket and the queue do during a frame is given with the frame (`Frame`).
* The log records what was queued, emitted and answered; no step reads it.
-/

namespace Docich.Captions

open Wire (Byte)

abbrev Triplet := Byte × Byte × Byte

/-- The missing parts: base64, libcaption, and the queue's capacity. -/
structure Codec where
  decode : List Char → Nat → Option (List Byte)
  captionTriplets : List Char → Option (List Triplet)
  clearTriplets : Option (List Triplet)
  endOfCaption : Triplet
  capacity : Nat

/-! ## State -/

inductive Event
  | prepared
  | committed
  | cleared
  | reset
  deriving DecidableEq

inductive Finalize
  | none
  | clear
  | reset
  deriving DecidableEq

/-- Triplets that were queued together, with the request they are of. -/
inductive Block
  | body (id : List Char) (page : Nat) (triplets : List Triplet)
  | commit (id : List Char) (page : Nat) (triplets : List Triplet)
  | clear (id : List Char) (triplets : List Triplet)
  | reset (triplets : List Triplet)
  deriving DecidableEq

def Block.triplets : Block → List Triplet
  | .body _ _ triplets => triplets
  | .commit _ _ triplets => triplets
  | .clear _ triplets => triplets
  | .reset triplets => triplets

/-- What is answered when the block is out. -/
def Block.answer : Block → Event × Option Nat
  | .body _ page _ => (.prepared, some page)
  | .commit _ page _ => (.committed, some page)
  | .clear _ _ => (.cleared, none)
  | .reset _ => (.reset, none)

inductive Output
  | queued (b : Block)
  | emitted (count : Nat)
  | acknowledged (event : Event) (page : Option Nat)
  | refused (code : String)
  deriving DecidableEq

structure Filter where
  client : Option (List Char)
  executionId : List Char
  preparedPage : Option Nat
  visiblePage : Option Nat
  fifo : List Triplet
  detected : Bool
  enqueuedTriplets : Nat
  emittedTriplets : Nat
  pendingTarget : Nat
  pendingPage : Option Nat
  pendingEvent : Option Event
  pendingFinalize : Finalize
  log : List Output

def Filter.new : Filter where
  client := none
  executionId := []
  preparedPage := none
  visiblePage := none
  fifo := []
  detected := false
  enqueuedTriplets := 0
  emittedTriplets := 0
  pendingTarget := 0
  pendingPage := none
  pendingEvent := none
  pendingFinalize := .none
  log := []

/-- How a read from the client ends. -/
inductive Ending
  | blocked
  | closed
  | failed

/-- What happens outside during a frame: whether a client connects, and can be made non-blocking; what it sends;
whether the acceptance can be sent; whether the queue takes triplets, and how many it gives. -/
structure Frame where
  accept : Option Bool
  received : List Char
  ending : Ending
  sent : Bool
  extracted : Bool
  injected : Option Nat

/-! ## Requests -/

def closeClient (s : Filter) : Filter :=
  { s with client := none, pendingTarget := 0, pendingEvent := none, pendingFinalize := .none }

def sendErrorAndClose (s : Filter) (code : String) : Filter :=
  match s.client with
  | none => s
  | some _ => closeClient { s with log := s.log ++ [.refused code] }

def maxTriplets : Nat := 128

def enqueueTriplets (codec : Codec) (frame : Frame) (s : Filter) (b : Block) : Option Filter :=
  let count := b.triplets.length
  if count = 0 ∨ maxTriplets < count then none
  else if codec.capacity - s.fifo.length < count then none
  else if !frame.extracted then none
  else some { s with
    fifo := s.fifo ++ b.triplets
    detected := true
    enqueuedTriplets := s.enqueuedTriplets + count
    log := s.log ++ [.queued b] }

def startPending (frame : Frame) (s : Filter) (event : Event) (page : Option Nat) (finalize : Finalize) : Filter :=
  let s := { s with
    pendingEvent := some event
    pendingTarget := s.enqueuedTriplets
    pendingPage := page
    pendingFinalize := finalize }
  if frame.sent then s else closeClient s

def handlePrepare (codec : Codec) (frame : Frame) (s : Filter) (id : List Char) (page : Nat) (text : List Char) :
    Filter :=
  if s.executionId ≠ [] ∧ s.executionId ≠ id then sendErrorAndClose s "ACTIVE_EXECUTION"
  else if s.preparedPage.isSome then sendErrorAndClose s "PAGE_ALREADY_PREPARED"
  else match codec.captionTriplets text with
    | none => sendErrorAndClose s "BAD_TEXT"
    | some triplets =>
      match enqueueTriplets codec frame s (.body id page triplets) with
      | none => sendErrorAndClose s "QUEUE_FULL"
      | some s => startPending frame { s with executionId := id, preparedPage := some page } .prepared (some page) .none

def handleCommit (codec : Codec) (frame : Frame) (s : Filter) (id : List Char) (page : Nat) : Filter :=
  if s.executionId ≠ id then sendErrorAndClose s "STALE_EXECUTION"
  else if s.preparedPage ≠ some page then sendErrorAndClose s "PAGE_NOT_PREPARED"
  else match enqueueTriplets codec frame s (.commit id page [codec.endOfCaption, codec.endOfCaption]) with
    | none => sendErrorAndClose s "QUEUE_FULL"
    | some s =>
      startPending frame { s with visiblePage := some page, preparedPage := none } .committed (some page) .none

def handleClear (codec : Codec) (frame : Frame) (s : Filter) (id : List Char) : Filter :=
  if s.executionId ≠ id then sendErrorAndClose s "STALE_EXECUTION"
  else match codec.clearTriplets with
    | none => sendErrorAndClose s "ENCODE_ERROR"
    | some triplets =>
      match enqueueTriplets codec frame s (.clear id triplets) with
      | none => sendErrorAndClose s "QUEUE_FULL"
      | some s => startPending frame { s with preparedPage := none, visiblePage := none } .cleared none .clear

def handleReset (codec : Codec) (frame : Frame) (s : Filter) : Filter :=
  match codec.clearTriplets with
  | none => sendErrorAndClose s "ENCODE_ERROR"
  | some triplets =>
    match enqueueTriplets codec frame s (.reset triplets) with
    | none => sendErrorAndClose s "QUEUE_FULL"
    | some s =>
      startPending frame { s with preparedPage := none, visiblePage := none, executionId := [] } .reset none .reset

def Rejection.code : Rejection → String
  | .badRequest => "BAD_REQUEST"
  | .badExecution => "BAD_EXECUTION"
  | .badPage => "BAD_PAGE"
  | .badText => "BAD_TEXT"

def handleRequest (codec : Codec) (frame : Frame) (s : Filter) (json : List Char) : Filter :=
  match parseRequest codec.decode json with
  | .error rejection => sendErrorAndClose s rejection.code
  | .ok (.request (.prepare id page text)) => handlePrepare codec frame s id page text
  | .ok (.request (.commit id page)) => handleCommit codec frame s id page
  | .ok (.request (.clear id)) => handleClear codec frame s id
  | .ok (.request .reset) => handleReset codec frame s
  | .ok (.unsupported id) =>
    sendErrorAndClose s (if s.executionId ≠ id then "STALE_EXECUTION" else "BAD_OPERATION")

/-! ## Frames -/

def completePending (s : Filter) : Filter :=
  match s.client, s.pendingEvent with
  | some _, some event =>
    if s.emittedTriplets < s.pendingTarget then s
    else
      -- Whether the answer arrives makes no difference.
      let s := { s with log := s.log ++ [.acknowledged event s.pendingPage] }
      let s := if s.pendingFinalize = .clear ∨ s.pendingFinalize = .reset then
          { s with executionId := [], detected := false }
        else s
      closeClient s
  | _, _ => s

def maxMessage : Nat := 4096

/-- What a client has sent so far, when there is one to read from. -/
def connect (frame : Frame) (s : Filter) : Option (List Char) :=
  match s.client with
  | some buffer => some buffer
  | none => if frame.accept = some true then some [] else none

/-- The line that the frame handles, and the state that handles it. -/
def receive (frame : Frame) (s : Filter) (buffer : List Char) : Filter × Option (List Char) :=
  let buffer := (buffer ++ frame.received).take maxMessage
  let s := { s with client := some buffer }
  match frame.ending with
  | .blocked => read buffer s
  | .closed => if buffer.length < maxMessage then (closeClient s, none) else read buffer s
  | .failed => if buffer.length < maxMessage then (closeClient s, none) else read buffer s
where
  read (buffer : List Char) (s : Filter) : Filter × Option (List Char) :=
    if '\n' ∈ buffer then (s, some ((lineOf buffer).takeWhile (· ≠ '\x00')))
    else if buffer.length = maxMessage then (sendErrorAndClose s "MESSAGE_TOO_LARGE", none)
    else (s, none)

/-- The service of the socket up to the request, if a whole line is there. -/
def poll (frame : Frame) (s : Filter) : Filter × Option (List Char) :=
  let s := completePending s
  if s.client.isSome ∧ s.pendingEvent.isSome then (s, none)
  else match connect frame s with
    | none => (if frame.accept = some false then closeClient s else s, none)
    | some buffer => receive frame s buffer

def serviceSocket (codec : Codec) (frame : Frame) (s : Filter) : Filter :=
  match poll frame s with
  | (s, none) => s
  | (s, some json) => handleRequest codec frame s json

/-- The queue gives its first triplets, if any were ever detected. -/
def inject (s : Filter) (expected : Nat) : Filter :=
  if s.detected then { s with fifo := s.fifo.drop expected } else s

/-- What the queue gave is counted, up to what was in it. -/
def emit (s : Filter) (expected : Nat) : Filter :=
  let available := s.enqueuedTriplets - s.emittedTriplets
  let s := inject s expected
  let emitted := min expected available
  { s with
    emittedTriplets := s.emittedTriplets + emitted
    log := s.log ++ [.emitted emitted] }

def filterFrame (codec : Codec) (s : Filter) (frame : Frame) : Filter :=
  let s := serviceSocket codec frame s
  match frame.injected with
  | none => s
  | some expected => completePending (emit s expected)

def run (codec : Codec) (frames : List Frame) : Filter := frames.foldl (filterFrame codec) .new

end Docich.Captions
