import Docich.Wire.Json

/-!
# The VRChat OSC bridge

- `coerceValue`, `sameValue`: the values of a parameter;
- `handle`: what the receiver makes of a packet;
- `applyEvents`, `applySpeaking`, `expire`, `flush`: the other parts of a tick;
- `tick`: the parts in their order.

A packet comes decoded, or is one that does not decode; times and finite floats are rationals; what `float` makes of an
integer is a parameter. The bridge keeps a log that none of its functions reads.
-/

namespace Docich.Osc

abbrev Text := List Char

/-! ## Values -/

inductive Kind
  | bool
  | int
  | float
  deriving DecidableEq

inductive Value
  | bool (b : Bool)
  | int (n : ℤ)
  | float (x : ℚ)
  deriving DecidableEq

/-- A value of an event or of a message before it is coerced; `other` is a string, a list and so on. -/
inductive Raw
  | none
  | bool (b : Bool)
  | int (n : ℤ)
  | float (x : ℚ)
  | inf
  | negInf
  | nan
  | other

/-- `vrOsc` is caught where a value is coerced; `overflow` is not. -/
inductive Failure
  | vrOsc
  | overflow

/-- `float` of an integer; none when it is too large. -/
abbrev ToFloat := ℤ → Option ℚ

def defaultValue : Kind → Value
  | .bool => .bool false
  | .int => .int 0
  | .float => .float 0

def coerceValue (float : ToFloat) : Kind → Raw → Except Failure Value
  | .bool, .bool b => .ok (.bool b)
  | .bool, .int n => if n = 0 ∨ n = 1 then .ok (.bool (n ≠ 0)) else .error .vrOsc
  | .bool, .float x => if x = 0 ∨ x = 1 then .ok (.bool (x ≠ 0)) else .error .vrOsc
  | .int, .bool b => .ok (.int b.toNat)
  | .int, .int n => .ok (.int n)
  | .int, .float x => if x.den = 1 then .ok (.int x.num) else .error .vrOsc
  | .float, .int n => match float n with
    | some x => .ok (.float x)
    | none => .error .overflow
  | .float, .float x => .ok (.float x)
  | _, _ => .error .vrOsc

def Value.truth : Value → Bool
  | .bool b => b
  | .int n => n ≠ 0
  | .float x => x ≠ 0

def Value.number : Value → ℚ
  | .bool b => b.toNat
  | .int n => n
  | .float x => x

/-- `int` of a value. -/
def Value.toInt : Value → ℤ
  | .bool b => b.toNat
  | .int n => n
  | .float x => x.num.tdiv x.den

def sameValue : Value → Value → Bool
  | .bool b, right => b = right.truth
  | left, .bool b => left.truth = b
  | left, right => left.number = right.number

/-! ## Settings -/

structure ParamSpec where
  name : Text
  kind : Kind
  hold_ms : ℕ
  persist : Bool

inductive Action
  | notify
  | mode
  deriving DecidableEq

structure InboundRule where
  parameter : Text
  action : Action
  values : List Text
  min_interval_ms : ℕ
  title : Text
  body : Text

def InboundRule.min_interval (rule : InboundRule) : ℚ := rule.min_interval_ms / 1000

structure Settings where
  send_min_interval : ℚ
  echo_suppress : ℚ
  max_sends_per_second : ℕ
  params : List ParamSpec
  inbound : List InboundRule
  speaking_parameter : Text
  /-- Whether there is a `speaking_path`. -/
  speaking : Bool
  speaking_grace : ℚ

def Settings.param (s : Settings) (name : Text) : Option ParamSpec := s.params.find? fun p => p.name = name

def Settings.rule (s : Settings) (name : Text) : Option InboundRule := s.inbound.find? fun r => r.parameter = name

/-! ## State -/

structure Slot where
  value : Value
  expires_at : Option ℚ

/-- What became of a received value. -/
inductive Outcome
  | echo
  | outOfRange
  | accepted (fired : Bool)
  deriving DecidableEq

inductive Entry
  /-- An event, the speaking state or an expiry gave the slot another value. -/
  | changed (name : Text) (value : Value)
  | received (name : Text) (value : Value) (now : ℚ) (outcome : Outcome)
  | sent (name : Text) (value : Value) (now : ℚ)
  deriving DecidableEq

/-- The bridge and its receiver; none is minus infinity in a time. -/
structure Bridge where
  slots : Text → Slot
  synced : Text → Option (Value × ℚ)
  send_times : List ℚ
  last_send_at : Option ℚ
  talking : Bool
  talking_seen_at : Option ℚ
  last_value : Text → Option Value
  last_fire_at : Text → Option ℚ
  log : List Entry

def Bridge.setSlot (b : Bridge) (name : Text) (slot : Slot) : Bridge :=
  { b with
    slots := Function.update b.slots name slot
    log := b.log ++ if (b.slots name).value = slot.value then [] else [.changed name slot.value] }

/-- A bridge with these slots: the defaults, or the values of the state file. -/
def Bridge.new (slots : Text → Slot) : Bridge where
  slots := slots
  synced := fun _ => none
  send_times := []
  last_send_at := none
  talking := false
  talking_seen_at := none
  last_value := fun _ => none
  last_fire_at := fun _ => none
  log := []

/-! ## Events and the speaking state -/

/-- A line of the spool; `param` is none when it is not a string, `hold_ms` when it is missing. -/
structure Event where
  param : Option Text
  value : Raw
  hold_ms : Option Raw

/-- The hold of an event where it is a number that is not negative, else that of the parameter. -/
def holdOf (spec : ParamSpec) : Option Raw → Raw
  | some (.int n) => if n < 0 then .int spec.hold_ms else .int n
  | some (.float x) => if x < 0 then .int spec.hold_ms else .float x
  | some .inf => .inf
  | some .nan => .nan
  | _ => .int spec.hold_ms

/-- When the value of an event expires. -/
def expiresAt (float : ToFloat) (now : ℚ) : Raw → Except Failure (Option ℚ)
  | .int n =>
    if 0 < n then
      match float n with
      | some x => .ok (some (now + x / 1000))
      | none => .error .overflow
    else .ok none
  | .float x => .ok (if 0 < x then some (now + x / 1000) else none)
  -- `inf` never comes, and no comparison holds of `nan`
  | _ => .ok none

/-- One event; the error is one that ends the loop. -/
def applyEvent (float : ToFloat) (s : Settings) (now : ℚ) (b : Bridge) (event : Event) : Except Failure Bridge :=
  match event.param with
  | none => .ok b
  | some name =>
    match s.param name with
    | none => .ok b
    | some spec =>
      if name = s.speaking_parameter then .ok b
      else match coerceValue float spec.kind event.value with
        | .error .vrOsc => .ok b
        | .error .overflow => .error .overflow
        | .ok value =>
          match expiresAt float now (holdOf spec event.hold_ms) with
          | .error e => .error e
          | .ok expires_at => .ok (b.setSlot name ⟨value, expires_at⟩)

/-- The bridge after the events, and whether the loop came to its end. -/
def applyEvents (float : ToFloat) (s : Settings) (now : ℚ) (b : Bridge) : List Event → Bridge × Bool
  | [] => (b, true)
  | event :: events =>
    match applyEvent float s now b event with
    | .ok b => applyEvents float s now b events
    | .error _ => (b, false)

def applySpeaking (s : Settings) (now : ℚ) (b : Bridge) (speaking : Bool) : Bridge :=
  if ¬ s.speaking then b
  else
    let b :=
      if speaking then { b with talking := true, talking_seen_at := some now }
      else if b.talking ∧ ∃ seen ∈ b.talking_seen_at, now - seen ≤ s.speaking_grace then b
      else { b with talking := false }
    b.setSlot s.speaking_parameter ⟨.bool b.talking, none⟩

/-! ## The receiver -/

/-- A decoded message, and whether the state file can be written when it is handled. -/
structure Message where
  address : Text
  args : List Raw
  persists : Bool

/-- What an action records, without its time. -/
inductive Record
  | mode (parameter : Text) (value : ℤ) (name : Text)
  | notify (parameter : Text) (value : Value) (title : Text) (body : Text)

structure InboundAction where
  parameter : Text
  value : Value
  action : Action
  record : Record

/-- `/avatar/parameters/` -/
def PARAMETER_PREFIX : Text :=
  ['/', 'a', 'v', 'a', 't', 'a', 'r', '/', 'p', 'a', 'r', 'a', 'm', 'e', 't', 'e', 'r', 's', '/']

/-- The rule and the value of a message; none when it is dropped before its value counts as received. -/
def takes (float : ToFloat) (s : Settings) (m : Message) : Except Failure (Option (InboundRule × ParamSpec × Value)) :=
  if ¬ PARAMETER_PREFIX.isPrefixOf m.address then .ok none
  else
    let name := m.address.drop PARAMETER_PREFIX.length
    if '/' ∈ name ∨ name = [] then .ok none
    else match s.rule name, s.param name, m.args with
      | some rule, some spec, arg :: _ =>
        match coerceValue float spec.kind arg with
        | .ok value => .ok (some (rule, spec, value))
        | .error .vrOsc => .ok none
        | .error .overflow => .error .overflow
      | _, _, _ => .ok none

def isEcho (s : Settings) (b : Bridge) (name : Text) (value : Value) (now : ℚ) : Bool :=
  match b.synced name with
  | none => false
  | some (last_value, synced_at) => if now - synced_at > s.echo_suppress then false else sameValue last_value value

def inRange (rule : InboundRule) (value : Value) : Bool :=
  rule.action ≠ .mode || rule.values = [] || (0 ≤ value.toInt && value.toInt < rule.values.length)

/-- Whether an accepted value fires its rule. -/
def fires (rule : InboundRule) (spec : ParamSpec) (last_fire : Option ℚ) (previous : Option Value) (value : Value)
    (now : ℚ) : Bool :=
  if 0 < rule.min_interval ∧ ∃ t ∈ last_fire, now - t < rule.min_interval then false
  else if spec.kind = .bool then previous ≠ some (.bool true) && value = .bool true
  else match previous with
    | some previous => ¬ sameValue previous value
    | none => true

def actionOf (rule : InboundRule) (spec : ParamSpec) (value : Value) : InboundAction where
  parameter := rule.parameter
  value := value
  action := rule.action
  record :=
    match rule.action with
    | .mode => .mode rule.parameter value.toInt (rule.values.getD value.toInt.toNat (Wire.intText value.toInt))
    | .notify => .notify rule.parameter (if spec.kind = .bool then .bool true else value) rule.title rule.body

def Bridge.observe (b : Bridge) (name : Text) (value : Value) (now : ℚ) : Bridge :=
  { b with
    slots := Function.update b.slots name ⟨value, none⟩
    synced := Function.update b.synced name (some (value, now)) }

/-- A received value is the last one of its parameter. -/
def Bridge.receive (b : Bridge) (name : Text) (value : Value) (now : ℚ) (outcome : Outcome) : Bridge :=
  { b with
    last_value := Function.update b.last_value name (some value)
    log := b.log ++ [.received name value now outcome] }

/-- The bridge after a message and the action it fires; the flag is lowered when the state file could not be written. -/
def handleValue (s : Settings) (now : ℚ) (b : Bridge) (rule : InboundRule) (spec : ParamSpec) (value : Value)
    (persists : Bool) : Bridge × Option InboundAction × Bool :=
  let name := rule.parameter
  let previous := b.last_value name
  if isEcho s b name value now then (b.receive name value now .echo, none, true)
  else if ¬ inRange rule value then (b.receive name value now .outOfRange, none, true)
  else if spec.persist ∧ ¬ persists then ((b.receive name value now (.accepted false)).observe name value now, none, false)
  else if fires rule spec (b.last_fire_at name) previous value now then
    let b := (b.receive name value now (.accepted true)).observe name value now
    ({ b with last_fire_at := Function.update b.last_fire_at name (some now) }, some (actionOf rule spec value), true)
  else ((b.receive name value now (.accepted false)).observe name value now, none, true)

/-- The messages of a packet in their order; the first failure ends it. -/
def handle (float : ToFloat) (s : Settings) (now : ℚ) (b : Bridge) : List Message → Bridge × List InboundAction × Bool
  | [] => (b, [], true)
  | m :: messages =>
    match takes float s m with
    | .error _ => (b, [], false)
    | .ok none => handle float s now b messages
    | .ok (some (rule, spec, value)) =>
      match handleValue s now b rule spec value m.persists with
      | (b, _, false) => (b, [], false)
      | (b, action, true) =>
        let (b, actions, done) := handle float s now b messages
        (b, action.toList ++ actions, done)

/-- The packets of a tick; the actions of a packet that fails are lost. -/
def handlePackets (float : ToFloat) (s : Settings) (now : ℚ) (b : Bridge) :
    List (Option (List Message)) → Bridge × List InboundAction
  | [] => (b, [])
  | none :: packets => handlePackets float s now b packets
  | some messages :: packets =>
    let (b, actions, done) := handle float s now b messages
    let (b, later) := handlePackets float s now b packets
    (b, (if done then actions else []) ++ later)

/-! ## Expiry and sending -/

def expireSlot (now : ℚ) (b : Bridge) (spec : ParamSpec) : Bridge :=
  match (b.slots spec.name).expires_at with
  | none => b
  | some expires_at => if now < expires_at then b else b.setSlot spec.name ⟨defaultValue spec.kind, none⟩

def expire (s : Settings) (now : ℚ) (b : Bridge) : Bridge := s.params.foldl (expireSlot now) b

/-- How an attempt to send ends: the datagram is out; it is out and the state file could not be written; an `OSError`;
another exception. -/
inductive Send
  | sent
  | sentUnsaved
  | osError
  | raised

/-- The times of the last second. -/
def prune (now : ℚ) (times : List ℚ) : List ℚ := times.dropWhile fun t => 1 ≤ now - t

def Bridge.send (b : Bridge) (name : Text) (now : ℚ) : Bridge :=
  { b with
    synced := Function.update b.synced name (some ((b.slots name).value, now))
    send_times := b.send_times ++ [now]
    log := b.log ++ [.sent name (b.slots name).value now] }

def isSynced (b : Bridge) (name : Text) : Bool :=
  match b.synced name with
  | some previous => sameValue previous.1 (b.slots name).value
  | none => false

/-- The bridge after the loop, the names that were sent, and whether no exception left it. -/
def flushLoop (s : Settings) (now : ℚ) (sends : Text → Send) (b : Bridge) : List ParamSpec → Bridge × List Text × Bool
  | [] => (b, [], true)
  | spec :: params =>
    if isSynced b spec.name then flushLoop s now sends b params
    else
      let b := { b with send_times := prune now b.send_times }
      if ¬ b.send_times.length < s.max_sends_per_second then (b, [], true)
      else match sends spec.name with
        | .osError => (b, [], true)
        | .raised => (b, [], false)
        | .sent =>
          let (b, names, done) := flushLoop s now sends (b.send spec.name now) params
          (b, spec.name :: names, done)
        | .sentUnsaved =>
          if spec.persist then (b.send spec.name now, [spec.name], false)
          else
            let (b, names, done) := flushLoop s now sends (b.send spec.name now) params
            (b, spec.name :: names, done)

def flush (s : Settings) (now : ℚ) (sends : Text → Send) (b : Bridge) : Bridge × List Text :=
  if ∃ last ∈ b.last_send_at, now - last < s.send_min_interval then (b, [])
  else
    let (b, names, done) := flushLoop s now sends b s.params
    if names ≠ [] ∧ done then ({ b with last_send_at := some now }, names) else (b, names)

/-! ## Ticks -/

/-- What a tick finds: its time, the new lines of the spool, the speaking state, the packets and how sending ends. -/
structure Tick where
  now : ℚ
  events : List Event
  speaking : Bool
  packets : List (Option (List Message))
  sends : Text → Send

structure TickResult where
  sent : List Text
  actions : List InboundAction

def tick (float : ToFloat) (s : Settings) (b : Bridge) (t : Tick) : Bridge × TickResult :=
  let (b, done) := applyEvents float s t.now b t.events
  let b := if done then applySpeaking s t.now b t.speaking else b
  let (b, actions) := handlePackets float s t.now b t.packets
  let b := expire s t.now b
  let (b, sent) := flush s t.now t.sends b
  (b, ⟨sent, actions⟩)

/-- A run from these slots. -/
def run (float : ToFloat) (s : Settings) (slots : Text → Slot) (ticks : List Tick) : Bridge :=
  ticks.foldl (fun b t => (tick float s b t).1) (Bridge.new slots)

end Docich.Osc
