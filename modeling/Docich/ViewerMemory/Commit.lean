import Docich.Durable.Table
import Docich.Ranked.Stable
import Docich.ViewerMemory.Staging

/-!
# The memory of viewers

- `commit_sidecar`: the events of a sidecar that pass the checks become exchanges of their viewers;
- `_prune_users`: exchanges that are too old and viewers over the cap are forgotten;
- `Memory.run`: commits, one after another, by a clock that does not go back.
-/

namespace Docich.ViewerMemory

open Durable (Table)
open Ranked (sortBy)

structure Exchange where
  event_id : Text
  played_at : ℤ
  mode : Mode
  kind : Kind
  comment : Text
  reply : Text

structure Viewer where
  key : Text
  source : Text
  normalized_name : Text
  stable_id : Text
  display_name : Text
  first_seen_at : ℤ
  last_seen_at : ℤ
  interaction_count : ℕ
  exchanges : List Exchange

abbrev Users := Table Viewer.key

structure Caps where
  max_users : ℤ
  max_exchanges : ℤ
  ttl_days : ℤ

def Caps.users (caps : Caps) : ℕ := (max 1 caps.max_users).toNat

def Caps.exchanges (caps : Caps) : ℕ := (max 1 caps.max_exchanges).toNat

def Caps.cutoff (caps : Caps) (now : ℤ) : ℤ := now - max 1 caps.ttl_days * 86400

def _safe_epoch (raw : ℤ) : ℤ := max 0 raw

def isFresh (cutoff : ℤ) (item : Exchange) : Bool := cutoff ≤ _safe_epoch item.played_at

def latest (exchanges : List Exchange) : ℤ := (exchanges.map fun item => _safe_epoch item.played_at).foldr max 0

def Viewer.refresh (cutoff : ℤ) (user : Viewer) : Option Viewer :=
  let exchanges := user.exchanges.filter (isFresh cutoff)
  if exchanges = [] then none else some { user with exchanges := exchanges, last_seen_at := latest exchanges }

theorem refresh_key {cutoff : ℤ} (a b : Viewer) (h : a.refresh cutoff = some b) : b.key = a.key := by
  unfold Viewer.refresh at h
  dsimp only at h
  split_ifs at h
  rw [← Option.some.inj h]

def _prune_users (users : Users) (cutoff : ℤ) (keep : ℕ) : Users :=
  let users := users.refresh (Viewer.refresh cutoff) refresh_key
  if users.rows.length ≤ keep then users
  else
    let newest := ((sortBy (fun user : Viewer => -_safe_epoch user.last_seen_at) users.rows).take keep).map Viewer.key
    users.filter (·.key ∈ newest)

/-! ## Commits -/

def Kind.text : Kind → Text
  | .comment => ['c', 'o', 'm', 'm', 'e', 'n', 't']
  | .card_acquired => ['c', 'a', 'r', 'd', '_', 'a', 'c', 'q', 'u', 'i', 'r', 'e', 'd']

def Mode.text : Mode → Text
  | .main => ['m', 'a', 'i', 'n']
  | .soren91 => ['s', 'o', 'r', 'e', 'n', '9', '1']

section

variable (u : Unicode) (sha256 : Text → Text)

def _event_id (event : StagedEvent) (mode : Mode) (batch_hash : Text) (staged_at : ℤ) : Text :=
  let source_message_id := _clean_metadata_token event.message_id 160
  let material :=
    if source_message_id ≠ [] then ['\x00'].intercalate [event.source, source_message_id, mode.text]
    else ['\x00'].intercalate
      [event.key, mode.text, batch_hash, Nat.toDigits 10 staged_at.toNat, event.kind.text, event.comment, event.reply]
  (sha256 material).take 24

/-- What is taken of an event. -/
structure Checked where
  name : Text
  normalized : Text
  stable_id : Text
  comment : Text
  reply : Text

def checkEvent (staged : StagedPayload) (raw_event : StagedEvent) : Option Checked :=
  let name := _collapse u raw_event.display_name 80
  let normalized := normalize_name u (if raw_event.normalized_name ≠ [] then raw_event.normalized_name else name)
  let stable_id := _collapse u raw_event.stable_id 160
  let comment := _collapse u raw_event.comment 1200
  let event_source := if raw_event.source ≠ [] then raw_event.source else staged.source
  let fallback_key := viewer_key u sha256 event_source normalized []
  if raw_event.key = [] ∨ name = [] ∨ normalized = [] ∨ comment = [] then none
  else if raw_event.key ≠ viewer_key u sha256 event_source normalized stable_id then none
  else if raw_event.fallback_key ≠ [] ∧ raw_event.fallback_key ≠ fallback_key then none
  else some ⟨name, normalized, stable_id, comment, _collapse u raw_event.reply 1600⟩

def lastOf {α : Type} (n : ℕ) (l : List α) : List α := l.drop (l.length - n)

def eventId (staged : StagedPayload) (raw_event : StagedEvent) : Text :=
  _event_id sha256 raw_event staged.mode staged.batch_hash (_safe_epoch staged.staged_at)

def exchangeOf (staged : StagedPayload) (now : ℤ) (raw_event : StagedEvent) (checked : Checked) : Exchange :=
  ⟨eventId sha256 staged raw_event, now, staged.mode, raw_event.kind, checked.comment, checked.reply⟩

/-- An event becomes an exchange of its viewer, unless it is one; with the number of exchanges that are new. -/
def commitUser (caps : Caps) (staged : StagedPayload) (now : ℤ) (raw_event : StagedEvent) (checked : Checked) (user : Viewer) :
    Viewer × ℕ :=
  let exchanges := user.exchanges.filter (isFresh (caps.cutoff now))
  if exchanges.any (·.event_id = eventId sha256 staged raw_event) then
    ({ user with exchanges := lastOf caps.exchanges exchanges }, 0)
  else
    ({ user with
        source := staged.source
        normalized_name := checked.normalized
        stable_id := checked.stable_id
        display_name := checked.name
        last_seen_at := now
        interaction_count := user.interaction_count + 1
        exchanges := lastOf caps.exchanges (exchanges ++ [exchangeOf sha256 staged now raw_event checked]) }, 1)

/-- The viewer of an event, before it. -/
def userOf (staged : StagedPayload) (now : ℤ) (users : Users) (raw_event : StagedEvent) (checked : Checked) : Viewer :=
  (users.find? raw_event.key).getD
    ⟨raw_event.key, staged.source, checked.normalized, checked.stable_id, checked.name, now, now, 0, []⟩

/-- An event of a sidecar, with the number of events that were committed. -/
def commitEvent (caps : Caps) (staged : StagedPayload) (now : ℤ) (s : Users × ℕ) (raw_event : StagedEvent) : Users × ℕ :=
  match checkEvent u sha256 staged raw_event with
  | none => s
  | some checked =>
    let r := commitUser sha256 caps staged now raw_event checked (userOf staged now s.1 raw_event checked)
    (s.1.upsert r.1, s.2 + r.2)

/-- The users when all events are through, with the number of those that were committed. -/
def commitEvents (caps : Caps) (staged : StagedPayload) (now : ℤ) (users : Users) : Users × ℕ :=
  staged.events.foldl (commitEvent u sha256 caps staged now) (_prune_users users (caps.cutoff now) caps.users, 0)

/-- The file is written with the users in the order of their keys. -/
def writeUsers (users : Users) : Users := users.arrange (sortBy Viewer.key users.rows) (Ranked.sortBy_perm _ _)

def commit_sidecar (caps : Caps) (staged : StagedPayload) (now : ℤ) (users : Users) : Users × ℕ :=
  let s := commitEvents u sha256 caps staged now users
  (writeUsers (_prune_users s.1 (caps.cutoff now) caps.users), s.2)

/-! ## Runs -/

/-- A sidecar, and how much later it is committed. -/
structure CommitInput where
  elapsed : ℕ
  staged : StagedPayload

structure Memory where
  users : Users
  clock : ℤ

def Memory.next (caps : Caps) (m : Memory) (input : CommitInput) : Memory where
  users := (commit_sidecar u sha256 caps input.staged (m.clock + input.elapsed) m.users).1
  clock := m.clock + input.elapsed

def Memory.run (caps : Caps) (start : ℤ) (inputs : List CommitInput) : Memory :=
  inputs.foldl (Memory.next u sha256 caps) ⟨Table.empty, start⟩

end

end Docich.ViewerMemory
