import Docich.Predictions.Accounting
import Docich.Wire.Utf8

/-!
# The size of the saved ledger

- `payload`: the bytes that `save` writes;
- `recordSettled`: one call of the single writer;
- `length_payload`: the size is the sum of the weights of the rounds;
- `recording`: the calls that raise because of the size.
-/

namespace Docich.Predictions

open List

open Ranked (sortBy)
open Wire (Json Separators quoted dumpsFields)
open Wire.Utf8 (encode)

/-! ## The document -/

def MAX_BYTES : ℕ := 512 * 1024

def separators : Separators := ⟨[','], [':']⟩

def statusText : Status → Text
  | .RESOLVED => resolvedText
  | .CANCELED => canceledText

/-- An outcome, its fields in the order of their keys. -/
def outcomeJson (o : Outcome) : Json :=
  .object [(idKey, .string o.id), (['p', 'o', 'i', 'n', 't', 's'], .int o.points), (titleKey, .string o.title),
    (usersKey, .int o.users)]

def predictorJson (p : Predictor) : Json :=
  .object [(['h', 'i', 't'], p.hit.elim .null .bool), (['o', 'u', 't', 'c', 'o', 'm', 'e', '_', 'i', 'd'], .string p.outcome_id),
    (['r', 'e', 'f', 'u', 'n', 'd', 'e', 'd'], .int p.refunded), (['u', 's', 'e', 'd'], .int p.used), (userIdKey, .string p.user_id),
    (userLoginKey, .string p.user_login), (userNameKey, .string p.user_name), (['w', 'o', 'n'], .int p.won)]

def roundJson (r : Recorded) : Json :=
  .object (
    (r.cancel_reason.map fun reason => (['c', 'a', 'n', 'c', 'e', 'l', '_', 'r', 'e', 'a', 's', 'o', 'n'], Json.string reason)).toList ++
    [(['c', 'o', 'r', 'n', 'e', 'r'], .string r.corner), (endedAtKey, .string r.round.ended_at), (idKey, .string r.round.id),
      (outcomesKey, .array (r.round.outcomes.map outcomeJson)),
      (['p', 'r', 'e', 'd', 'i', 'c', 't', 'o', 'r', 's'], .array (r.round.predictors.map predictorJson))] ++
    (r.recorded_at.map fun now => (['r', 'e', 'c', 'o', 'r', 'd', 'e', 'd', '_', 'a', 't'], Json.int now)).toList ++
    [(statusKey, .string (statusText r.round.status)), (titleKey, .string r.round.title),
      (winnerKey, r.round.winning_outcome_id.elim .null .string)])

def roundsJson (ledger : Ledger) : List (Text × Json) := ledger.map fun r => (r.round.id, roundJson r)

/-- The bytes of a saved ledger, its rounds in the order of their ids. -/
def payload (ledger : Ledger) : List ℕ :=
  encode ((Json.object [(['r', 'o', 'u', 'n', 'd', 's'], .object (roundsJson (sortBy (fun r => r.round.id) ledger))),
    (['s', 'c', 'h', 'e', 'm', 'a'], .int 2)]).dumps separators ++ ['\n'])

def fits (ledger : Ledger) : Bool := (payload ledger).length ≤ MAX_BYTES

inductive Raised
  | leaderboard (e : LeaderboardError)
  | size

/-- One call on the saved ledger: its answer, and the ledger that is saved after it. -/
def recordSettled (str : Json → Text) (file : Ledger) (remote : Json) (corner : Text) (now : Option ℤ)
    (cancel_reason : Option Text) : Except Raised (Bool × Ledger) :=
  if fits file then
    match record str file remote corner now cancel_reason with
    | .error e => .error (.leaderboard e)
    | .ok (false, _) => .ok (false, file)
    | .ok (true, ledger) => if fits ledger then .ok (true, reload fits ledger) else .error .size
  else .error .size

structure Call where
  remote : Json
  corner : Text
  now : Option ℤ
  cancel_reason : Option Text

/-- A call that raises leaves the file. -/
def call (str : Json → Text) (file : Ledger) (c : Call) : Ledger :=
  match recordSettled str file c.remote c.corner c.now c.cancel_reason with
  | .ok (_, file) => file
  | .error _ => file

def saved (str : Json → Text) (calls : List Call) : Ledger := calls.foldl (call str) []

/-! ## Sizes -/

/-- What a round takes in the file, with the comma or the brace after it. -/
def weight (r : Recorded) : ℕ := (encode (quoted r.round.id ++ [':'] ++ (roundJson r).dumps separators)).length + 1

def total (ledger : Ledger) : ℕ := (ledger.map weight).sum

theorem encode_append (s t : Text) : encode (s ++ t) = encode s ++ encode t := flatMap_append

theorem length_fields (r : Recorded) (ledger : Ledger) :
    (encode (dumpsFields separators (roundsJson (r :: ledger)))).length + 1 = total (r :: ledger) := by
  induction ledger generalizing r with
  | nil => simp [roundsJson, dumpsFields, total, weight, separators]
  | cons r' ledger ih =>
    have hrest := ih r'
    simp only [roundsJson, map_cons, dumpsFields, total, sum_cons] at hrest ⊢
    have hcomma : (encode separators.comma).length = 1 := rfl
    have hfirst : (encode (quoted r.round.id ++ separators.colon ++ (roundJson r).dumps separators)).length + 1 = weight r := rfl
    rw [encode_append, encode_append, length_append, length_append]
    omega

/-- What stands before the rounds, and after them. -/
def opening : Text := ['{', '"', 'r', 'o', 'u', 'n', 'd', 's', '"', ':', '{']
def closing : Text := ['}', ',', '"', 's', 'c', 'h', 'e', 'm', 'a', '"', ':', '2', '}', '\n']

theorem payload_eq (ledger : Ledger) : payload ledger =
    encode (opening ++ dumpsFields separators (roundsJson (sortBy (fun r => r.round.id) ledger)) ++ closing) := by
  unfold payload
  congr 1
  simp only [Json.dumps, dumpsFields, separators, opening, closing, cons_append, append_assoc]
  rfl

variable {ledger file : Ledger} {str : Json → Text} {id title : Text}

/-- The size of a ledger with rounds. -/
theorem length_payload (hne : ledger ≠ []) : (payload ledger).length = 24 + total ledger := by
  have hperm : (sortBy (fun r : Recorded => r.round.id) ledger).Perm ledger := Ranked.sortBy_perm _ ledger
  have htotal : total (sortBy (fun r => r.round.id) ledger) = total ledger := (hperm.map weight).sum_eq
  have hopening : (encode opening).length = 11 := rfl
  have hclosing : (encode closing).length = 14 := rfl
  rw [payload_eq, encode_append, encode_append, length_append, length_append, ← htotal]
  cases hl : sortBy (fun r => r.round.id) ledger with
  | nil =>
    rw [hl] at hperm
    exact absurd hperm.nil_eq.symm hne
  | cons r rest =>
    have hfields := length_fields r rest
    omega

theorem fits_nil : fits [] = true := by decide +kernel

theorem fits_iff (ledger : Ledger) : fits ledger = true ↔ 24 + total ledger ≤ MAX_BYTES := by
  by_cases hne : ledger = []
  · rw [hne]
    exact iff_of_true fits_nil (by decide)
  · rw [fits, decide_eq_true_eq, length_payload hne]

/-! ## Runs -/

theorem fits_reload (h : fits ledger = true) : fits (reload fits ledger) = true := by
  unfold reload
  split
  · have hperm : (sortBy (fun r : Recorded => r.round.id) ledger).Perm ledger := Ranked.sortBy_perm _ ledger
    have htotal : total (sortBy (fun r => r.round.id) ledger) = total ledger := (hperm.map weight).sum_eq
    rw [fits_iff] at h ⊢
    rwa [htotal]
  · exact h

/-- One call, on a file that was saved. -/
theorem recordSettled_eq (hfile : fits file = true) (c : Call) :
    recordSettled str file c.remote c.corner c.now c.cancel_reason =
      match record str file c.remote c.corner c.now c.cancel_reason with
      | .error e => .error (.leaderboard e)
      | .ok (false, _) => .ok (false, file)
      | .ok (true, ledger) => if fits ledger then .ok (true, reload fits ledger) else .error .size := if_pos hfile

theorem recordSettled_landed (hfile : fits file = true) {remote : Json} {corner : Text}
    {now : Option ℤ} {cancel_reason : Option Text} (h : record str file remote corner now cancel_reason = .ok (true, ledger)) :
    recordSettled str file remote corner now cancel_reason =
      if fits ledger then .ok (true, reload fits ledger) else .error .size := by
  unfold recordSettled
  rw [if_pos hfile, h]

theorem fits_call (hfile : fits file = true) (c : Call) : fits (call str file c) = true := by
  unfold call
  rw [recordSettled_eq hfile]
  cases hrecord : record str file c.remote c.corner c.now c.cancel_reason with
  | error e => exact hfile
  | ok answer =>
    obtain ⟨answer, ledger⟩ := answer
    cases answer with
    | false => exact hfile
    | true =>
      by_cases hfits : fits ledger = true
      · simp only [if_pos hfits]
        exact fits_reload hfits
      · simp only [if_neg hfits]
        exact hfile

theorem fits_saved (str : Json → Text) (calls : List Call) : fits (saved str calls) = true := by
  induction calls using List.reverseRecOn with
  | nil => exact fits_nil
  | append_singleton calls c ih =>
    rw [saved, foldl_append]
    exact fits_call ih c

/-- **The two bounds.** Every saved ledger is within the bytes. A call raises because of the size exactly when the rounds that
the retention keeps with its new round are too large together, and a call that raises leaves the file. -/
theorem recording (str : Json → Text) (calls : List Call) :
    fits (saved str calls) = true ∧ ∀ c : Call,
      (recordSettled str (saved str calls) c.remote c.corner c.now c.cancel_reason = .error .size ↔
        ∃ r, record str (saved str calls) c.remote c.corner c.now c.cancel_reason = .ok (true, prune (saved str calls ++ [r])) ∧
          MAX_BYTES < 24 + total (prune (saved str calls ++ [r]))) ∧
      ∀ e, recordSettled str (saved str calls) c.remote c.corner c.now c.cancel_reason = .error e →
        saved str (calls ++ [c]) = saved str calls := by
  have hfits := fits_saved str calls
  refine ⟨hfits, fun c => ⟨?_, fun e he => ?_⟩⟩
  · rw [recordSettled_eq hfits]
    constructor
    · intro h
      split at h
      · cases h
      · cases h
      · next ledger hrecord =>
        obtain ⟨round, r, -, -, rfl⟩ := record_landed hrecord
        split at h
        · cases h
        · next hnot =>
          rw [fits_iff, Nat.not_le] at hnot
          exact ⟨r, hrecord, hnot⟩
    · rintro ⟨r, hrecord, hsize⟩
      rw [hrecord]
      simp only
      rw [if_neg]
      rwa [fits_iff, Nat.not_le]
  · rw [saved, foldl_append, ← saved, foldl_cons, foldl_nil, call, he]

/-! ## Two rounds with long titles -/

/-- A settled row without predictors. -/
def titled (id title : Text) : Call := ⟨settledRow id title resolvedText ['x'] [] [], ['c'], none, none⟩

def titledRecord (id title : Text) : Recorded where
  round := {
    id := id
    title := title
    ended_at := []
    status := .RESOLVED
    winning_outcome_id := some ['x']
    outcomes := [⟨['x'], [], 0, 0⟩, ⟨['y'], [], 0, 0⟩]
    predictors := [] }
  corner := ['c']
  cancel_reason := none
  recorded_at := none

theorem weight_titled (id title : Text) :
    weight (titledRecord id title) = weight (titledRecord id []) + (encode (title.flatMap Wire.escape)).length := by
  simp only [weight, roundJson, titledRecord, Option.map_none, Option.toList_none, nil_append, append_nil,
    cons_append, Json.dumps, dumpsFields, quoted, flatMap_nil]
  simp only [encode, flatMap_cons, flatMap_append, length_append]
  omega

theorem exists_title (n : ℕ) : ∃ title : Text, (encode (title.flatMap Wire.escape)).length = n := by
  induction n with
  | zero => exact ⟨[], rfl⟩
  | succ n ih =>
    obtain ⟨title, htitle⟩ := ih
    refine ⟨'a' :: title, ?_⟩
    rw [flatMap_cons, encode_append, length_append, htitle]
    exact Nat.add_comm 1 n

theorem record_titled (hid : id = ['1'] ∨ id = ['2']) (title : Text) :
    record noText [] (titled id title).remote ['c'] none none = .ok (true, [titledRecord id title]) := by
  rcases hid with rfl | rfl <;> rfl

theorem record_second (title : Text) :
    record noText [titledRecord ['1'] title] (titled ['2'] title).remote ['c'] none none =
      .ok (true, [titledRecord ['1'] title, titledRecord ['2'] title]) := rfl

theorem fits_titled (hid : id = ['1'] ∨ id = ['2'])
    (hlong : (encode (title.flatMap Wire.escape)).length = 300000) : fits [titledRecord id title] = true := by
  have hweight : weight (titledRecord id []) = 213 := by rcases hid with rfl | rfl <;> decide +kernel
  rw [fits_iff, total, map_singleton, sum_singleton, weight_titled, hlong, hweight]
  decide

theorem settled_titled (hid : id = ['1'] ∨ id = ['2'])
    (hlong : (encode (title.flatMap Wire.escape)).length = 300000) :
    recordSettled noText [] (titled id title).remote ['c'] none none = .ok (true, [titledRecord id title]) := by
  have hreload : reload fits [titledRecord id title] = [titledRecord id title] := by
    unfold reload
    split <;> simp [sortBy]
  rw [recordSettled_landed fits_nil (record_titled hid title), if_pos (fits_titled hid hlong), hreload]

/-- Each of two rounds fits into an empty ledger, and the call that adds the second one to the first raises. -/
theorem recording_jams : ∃ first second : Call,
    (∀ c ∈ [first, second], ∃ ledger, recordSettled noText [] c.remote c.corner c.now c.cancel_reason = .ok (true, ledger)) ∧
      recordSettled noText (saved noText [first]) second.remote second.corner second.now second.cancel_reason = .error .size := by
  obtain ⟨title, hlong⟩ := exists_title 300000
  have hfirst := settled_titled (.inl rfl) hlong
  have hsecond := settled_titled (.inr rfl) hlong
  refine ⟨titled ['1'] title, titled ['2'] title, ?_, ?_⟩
  · intro c hc
    rcases mem_pair.mp hc with rfl | rfl
    · exact ⟨_, hfirst⟩
    · exact ⟨_, hsecond⟩
  · have hsaved : saved noText [titled ['1'] title] = [titledRecord ['1'] title] := by
      change (match recordSettled noText [] (titled ['1'] title).remote ['c'] none none with
        | .ok (_, file) => file
        | .error _ => ([] : Ledger)) = _
      rw [hfirst]
    have hlarge : ¬ fits [titledRecord ['1'] title, titledRecord ['2'] title] = true := by
      rw [fits_iff, total, map_cons, map_singleton, sum_pair, weight_titled _ title, weight_titled ['2'] title, hlong]
      unfold MAX_BYTES
      omega
    rw [hsaved]
    exact (recordSettled_landed (fits_titled (.inl rfl) hlong) (record_second title)).trans (if_neg hlarge)

end Docich.Predictions
