import Docich.Durable.Table
import Mathlib.Data.List.Dedup
import Mathlib.Data.Rat.Defs

/-!
# The event journal and its delivery

A journal of bounded length, and the delivery of its events to the overlay and to speech. The outcome of each send is
given with the call.
-/

namespace Docich.Trading

/-! ## The journal -/

inductive EventType
  | paperFill
  | multilegSettlement
  deriving DecidableEq

structure PublicEvent where
  eventId : String
  eventType : EventType
  occurredAt : ℚ
  eventId_ne : eventId ≠ ""
  deriving DecidableEq

abbrev Journal := Durable.Table PublicEvent.eventId

inductive PublicEventError
  | maxEventsNotPositive

def maxEventsDefault : ℕ := 500

def lastEvents (journal : Journal) (n : ℕ) : Journal where
  rows := journal.rows.drop (journal.rows.length - n)
  nodup := journal.nodup.sublist ((List.drop_sublist _ _).map _)

/-- `append_public_event`; the flag says whether the event was new. -/
def appendPublicEvent (journal : Journal) (event : PublicEvent) (maxEvents : ℕ) :
    Except PublicEventError (Journal × Bool) :=
  if maxEvents = 0 then .error .maxEventsNotPositive
  else match journal.insert? event with
    | none => .ok (journal, false)
    | some records => .ok (lastEvents records maxEvents, true)

/-! ## The delivery -/

/-- What is stored of the deliveries, without duplicates as the loader demands. -/
structure DeliveryState where
  overlayIds : List String
  speechIds : List String
  updatedAt : ℚ
  overlayIds_nodup : overlayIds.Nodup
  speechIds_nodup : speechIds.Nodup

structure NotificationDeliveryResult where
  enabled : Bool
  bootstrapped : Bool
  sourceCount : ℕ
  overlaySent : ℕ
  speechSent : ℕ
  overlayPending : ℕ
  speechPending : ℕ
  errorCodes : List String

/-- The configuration of a call, its time and the outcome of each send. -/
structure Call where
  notificationsEnabled : Bool
  notificationSpeechEnabled : Bool
  overlayOk : PublicEvent → Bool
  speechOk : PublicEvent → Bool
  now : ℚ

def eventIds (journal : Journal) : List String := journal.rows.map PublicEvent.eventId

def bounded (ids sourceIds : List String) : List String := sourceIds.filter fun eventId => eventId ∈ ids

def isOverlayOnlyEvent (item : PublicEvent) : Bool :=
  item.eventType = .paperFill || item.eventType = .multilegSettlement

/-- A send to a channel, and whether it succeeded. -/
structure Attempt where
  eventId : String
  ok : Bool
  deriving DecidableEq

/-- One channel in the middle of a call. -/
structure Pass where
  ids : List String
  blocked : Bool
  attempts : List Attempt

def Pass.start (ids : List String) : Pass := ⟨ids, false, []⟩

def Pass.mark (p : Pass) (sourceIds : List String) (item : PublicEvent) : Pass :=
  { p with ids := bounded (p.ids ++ [item.eventId]) sourceIds }

def Pass.send (p : Pass) (sourceIds : List String) (ok : PublicEvent → Bool) (item : PublicEvent) : Pass :=
  if ok item then { p.mark sourceIds item with attempts := p.attempts ++ [⟨item.eventId, true⟩] }
  else { p with blocked := true, attempts := p.attempts ++ [⟨item.eventId, false⟩] }

def overlayStep (sourceIds : List String) (ok : PublicEvent → Bool) (p : Pass) (item : PublicEvent) : Pass :=
  if item.eventId ∉ p.ids ∧ ¬p.blocked then p.send sourceIds ok item else p

def speechStep (sourceIds : List String) (ok : PublicEvent → Bool) (p : Pass) (item : PublicEvent) : Pass :=
  if item.eventId ∈ p.ids then p
  else if isOverlayOnlyEvent item then p.mark sourceIds item
  else if p.blocked then p
  else p.send sourceIds ok item

def overlayPass (journal : Journal) (ok : PublicEvent → Bool) (ids : List String) : Pass :=
  journal.rows.foldl (overlayStep (eventIds journal) ok) (.start (bounded ids (eventIds journal)))

def speechPass (journal : Journal) (call : Call) (ids : List String) : Pass :=
  if call.notificationSpeechEnabled then
    journal.rows.foldl (speechStep (eventIds journal) call.speechOk) (.start (bounded ids (eventIds journal)))
  else .start (eventIds journal)

def Pass.sent (p : Pass) : ℕ := (p.attempts.filter Attempt.ok).length

def Pass.pending (p : Pass) (journal : Journal) : ℕ :=
  ((eventIds journal).filter fun eventId => eventId ∉ bounded p.ids (eventIds journal)).length

theorem eventIds_nodup (journal : Journal) : (eventIds journal).Nodup := journal.nodup

theorem bounded_nodup (ids : List String) (journal : Journal) : (bounded ids (eventIds journal)).Nodup :=
  (eventIds_nodup journal).filter _

structure Store where
  journal : Journal
  delivery : Option DeliveryState

/-- `deliver_pending_notifications`: the store it leaves, its result, and the sends to the overlay and to speech. -/
def deliverPendingNotifications (call : Call) (s : Store) :
    Store × NotificationDeliveryResult × List Attempt × List Attempt :=
  if ¬call.notificationsEnabled then (s, ⟨false, false, 0, 0, 0, 0, 0, []⟩, [], [])
  else match s.delivery with
    | none =>
      let state : DeliveryState :=
        ⟨eventIds s.journal, eventIds s.journal, call.now, eventIds_nodup _, eventIds_nodup _⟩
      ({ s with delivery := some state }, ⟨true, true, s.journal.rows.length, 0, 0, 0, 0, []⟩, [], [])
    | some state =>
      let overlay := overlayPass s.journal call.overlayOk state.overlayIds
      let speech := speechPass s.journal call state.speechIds
      let state : DeliveryState :=
        ⟨bounded overlay.ids (eventIds s.journal), bounded speech.ids (eventIds s.journal), call.now,
          bounded_nodup _ _, bounded_nodup _ _⟩
      ({ s with delivery := some state },
        ⟨true, false, s.journal.rows.length, overlay.sent, speech.sent, overlay.pending s.journal,
          speech.pending s.journal,
          (if overlay.blocked then ["overlay_delivery_error"] else []) ++
            if speech.blocked then ["speech_delivery_error"] else []⟩,
        overlay.attempts, speech.attempts)

/-! ## Runs -/

inductive Op
  | append (event : PublicEvent) (maxEvents : ℕ)
  | deliver (call : Call)

/-- What is seen of an operation: the ids that were appended after the first delivery, and the sends. -/
structure Outcome where
  accepted : List String
  overlay : List Attempt
  speech : List Attempt

def Store.step (s : Store) : Op → Store × Outcome
  | .append event maxEvents =>
    match appendPublicEvent s.journal event maxEvents with
    | .ok (journal, true) =>
      ({ s with journal := journal }, ⟨if s.delivery.isSome then [event.eventId] else [], [], []⟩)
    | _ => (s, ⟨[], [], []⟩)
  | .deliver call =>
    let (s', _, overlay, speech) := deliverPendingNotifications call s
    (s', ⟨[], overlay, speech⟩)

def Store.after (s : Store) (ops : List Op) : Store := ops.foldl (fun s op => (s.step op).1) s

def Store.outcomes (s : Store) : List Op → List Outcome
  | [] => []
  | op :: ops => (s.step op).2 :: (s.step op).1.outcomes ops

def Store.accepted (s : Store) (ops : List Op) : List String := (s.outcomes ops).flatMap Outcome.accepted

def Store.overlay (s : Store) (ops : List Op) : List Attempt := (s.outcomes ops).flatMap Outcome.overlay

def Store.speech (s : Store) (ops : List Op) : List Attempt := (s.outcomes ops).flatMap Outcome.speech

def succeeded (attempts : List Attempt) : List String := (attempts.filter Attempt.ok).map Attempt.eventId

end Docich.Trading
