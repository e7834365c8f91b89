import Docich.Fallible
import Docich.Predictions.Leaderboard
import Docich.Ranked.Greatest

/-!
# The rounds of a ledger

- `extract_spec`: what holds of every round that is extracted;
- `prune_spec`: a pruned ledger has the greatest rounds of the ledger;
- `Sound`: after any calls the ledger has the greatest of the rounds that were delivered (`sound_after`).
-/

namespace Docich.Predictions

open List Ranked

open Ranked (sortBy greatest above elements)
open Wire (Json Dict isFalsy)

/-! ## Extracted rounds -/

export Fallible (bind_ok)

variable {β : Type} {c : Bool} {e : LeaderboardError} {x : Option Json} {status : Status}
    {winner outcome_id corner : Text} {seen seen' : List (Text × Text)} {row remote : Json}
    {ps : List Predictor} {str : Json → Text} {round : Round} {now : Option ℤ}
    {cancel_reason : Option Text} {r : Recorded}

theorem check_bind {f : Unit → Except LeaderboardError β} {b : β}
    (h : (check c e >>= f) = .ok b) : c = true ∧ f () = .ok b := by
  cases c with
  | false => cases h
  | true => exact ⟨rfl, h⟩

theorem check_true (h : c = true) (e : LeaderboardError) (f : Unit → Except LeaderboardError β) :
    (check c e >>= f) = f () := by
  rw [h]
  rfl

theorem textOf_ok {s : Text} (h : textOf x e = .ok s) : isText s = true := by
  unfold textOf at h
  split at h
  · split at h
    · next hs =>
      cases h
      exact hs
    · cases h
  · cases h

theorem pointsOf_ok {used won refunded : ℕ} {hit : Option Bool}
    (h : pointsOf status winner outcome_id used x = .ok (won, refunded, hit)) :
    refunded = (if status = .CANCELED then used else 0) ∧ (status = .CANCELED → hit = none ∧ won = 0) ∧
      (status = .RESOLVED → hit ≠ none) := by
  cases status with
  | RESOLVED =>
    obtain ⟨won, -, h⟩ := bind_ok h
    cases h
    exact ⟨rfl, nofun, fun _ => nofun⟩
  | CANCELED =>
    simp only [pointsOf] at h
    split at h
    · cases h
      exact ⟨rfl, fun _ => ⟨rfl, rfl⟩, nofun⟩
    · cases h
      exact ⟨rfl, fun _ => ⟨rfl, rfl⟩, nofun⟩
    · obtain ⟨_, -, h⟩ := bind_ok h
      cases h
      exact ⟨rfl, fun _ => ⟨rfl, rfl⟩, nofun⟩

theorem extractPredictor_ok {p : Predictor} (h : extractPredictor status winner outcome_id seen row = .ok (p, seen')) :
    checkPredictor status p = true := by
  unfold extractPredictor at h
  split at h
  · obtain ⟨user_id, huser, h⟩ := bind_ok h
    obtain ⟨-, h⟩ := check_bind h
    obtain ⟨used, -, h⟩ := bind_ok h
    obtain ⟨⟨won, refunded, hit⟩, hpoints, h⟩ := bind_ok h
    obtain ⟨user_login, -, h⟩ := bind_ok h
    obtain ⟨user_name, -, h⟩ := bind_ok h
    cases h
    obtain ⟨hrefunded, hcanceled, hresolved⟩ := pointsOf_ok hpoints
    have htext := textOf_ok huser
    cases status with
    | RESOLVED => simp [checkPredictor, htext, hrefunded, hresolved rfl]
    | CANCELED => simp [checkPredictor, htext, hrefunded, hcanceled rfl]
  · cases h

theorem extractPredictors_ok {rows : List Json}
    (h : extractPredictors status winner outcome_id seen rows = .ok (ps, seen')) :
    ps.all (checkPredictor status) = true := by
  induction rows generalizing seen ps seen' with
  | nil =>
    cases h
    rfl
  | cons row rows ih =>
    obtain ⟨⟨p, seen₁⟩, hp, h⟩ := bind_ok h
    obtain ⟨⟨qs, seen₂⟩, hqs, h⟩ := bind_ok h
    cases h
    rw [all_cons, extractPredictor_ok hp, ih hqs]
    rfl

theorem extractOutcome_ok {outcome : Json} {o : Outcome}
    (h : extractOutcome status winner seen outcome = .ok (o, ps, seen')) :
    ps.all (checkPredictor status) = true := by
  unfold extractOutcome at h
  split at h
  · obtain ⟨id, -, h⟩ := bind_ok h
    split at h
    · cases h
    · obtain ⟨users, -, h⟩ := bind_ok h
      obtain ⟨points, -, h⟩ := bind_ok h
      obtain ⟨rows, -, h⟩ := bind_ok h
      obtain ⟨⟨qs, seen₁⟩, hqs, h⟩ := bind_ok h
      cases h
      exact extractPredictors_ok hqs
  · cases h

theorem extractOutcomes_ok {outcomes : List Json}
    {os : List Outcome} (h : extractOutcomes status winner seen outcomes = .ok (os, ps)) :
    ps.all (checkPredictor status) = true := by
  induction outcomes generalizing seen os ps with
  | nil =>
    cases h
    rfl
  | cons outcome outcomes ih =>
    obtain ⟨⟨o, qs, seen₁⟩, ho, h⟩ := bind_ok h
    obtain ⟨⟨os', qs'⟩, hos, h⟩ := bind_ok h
    cases h
    rw [all_append, extractOutcome_ok ho, ih hos]
    rfl

theorem winning_eq_none (status : Status) (winner : Text) :
    (if status = .RESOLVED then some winner else none) = none ↔ status = .CANCELED := by
  cases status <;> simp

/-- What holds of every round that is extracted. -/
theorem extract_spec (h : extract str remote = .ok (some round)) :
    remoteId remote = .ok round.id ∧ (round.winning_outcome_id = none ↔ round.status = .CANCELED) ∧
      round.predictors.all (checkPredictor round.status) = true := by
  unfold extract at h
  split at h
  · split at h
    · next hid _ _ =>
      obtain ⟨hrow, h⟩ := check_bind h
      split at h
      · cases h
      · obtain ⟨winner, -, h⟩ := bind_ok h
        obtain ⟨⟨os, ps⟩, hos, h⟩ := bind_ok h
        obtain ⟨-, h⟩ := check_bind h
        rw [← Option.some.inj (Except.ok.inj h)]
        simp only [Bool.and_eq_true] at hrow
        refine ⟨?_, ?_, extractOutcomes_ok hos⟩
        · simp only [remoteId, hid, textOf, hrow.1.1, if_true]
        · exact winning_eq_none _ winner
    · cases h
  · cases h

theorem stored_ok (h : stored round corner now cancel_reason = .ok r) :
    r.round = round ∧ r.cancel_reason = cancel_reason ∧
      (round.status = .CANCELED → cancel_reason.any (· ∈ CANCEL_REASONS) = true) := by
  obtain ⟨-, h⟩ := check_bind h
  cases hs : round.status with
  | CANCELED =>
    simp only [hs] at h
    obtain ⟨hreason, h⟩ := check_bind h
    obtain ⟨-, h⟩ := check_bind h
    cases h
    exact ⟨rfl, rfl, fun _ => hreason⟩
  | RESOLVED =>
    simp only [hs] at h
    obtain ⟨-, h⟩ := check_bind h
    obtain ⟨-, h⟩ := check_bind h
    cases h
    exact ⟨rfl, rfl, nofun⟩

/-- A round that is recorded passes the check of the ledger. -/
theorem checkRound_stored (hextract : extract str remote = .ok (some round))
    (hstored : stored round corner now cancel_reason = .ok r) : checkRound r = true := by
  obtain ⟨-, hwinner, hpredictors⟩ := extract_spec hextract
  obtain ⟨hround, hreason, hcanceled⟩ := stored_ok hstored
  cases hs : round.status with
  | RESOLVED =>
    rw [hs] at hwinner hpredictors
    have hsome : round.winning_outcome_id ≠ none := fun h => nomatch hwinner.mp h
    simp [checkRound, hround, hs, hsome, hpredictors]
  | CANCELED =>
    rw [hs] at hpredictors
    simp [checkRound, hround, hreason, hs, hwinner.mpr hs, hcanceled hs, hpredictors]

/-! ## Pruning -/

def keys (ledger : Ledger) : List (Text ×ₗ Text) := ledger.map fun r => key r.round

theorem prune_sublist (ledger : Ledger) : (prune ledger).Sublist ledger := by
  unfold prune
  split
  · exact Sublist.refl _
  · exact filter_sublist

/-- A pruned ledger has the greatest rounds of the ledger. -/
theorem prune_spec {ledger : Ledger} (hnodup : (keys ledger).Nodup) :
    elements (keys (prune ledger)) = greatest MAX_ROUNDS (elements (keys ledger)) := by
  have hlength : (keys ledger).length = ledger.length := length_map _
  unfold prune
  split
  · next hle =>
    rw [greatest_of_card_le]
    rw [card_elements hnodup, hlength]
    exact hle
  · have hperm : (sortBy id (keys ledger)).Perm (keys ledger) := sortBy_perm id (keys ledger)
    have hsorted : (sortBy id (keys ledger)).Pairwise (· < ·) := by
      have hle := sortBy_pairwise id (keys ledger)
      have hne : (sortBy id (keys ledger)).Pairwise (· ≠ ·) := hperm.nodup_iff.mpr hnodup
      exact (hle.and hne).imp fun h => lt_of_le_of_ne h.1 h.2
    have hset : elements (sortBy id (keys ledger)) = elements (keys ledger) := by
      ext x
      rw [mem_elements, mem_elements, hperm.mem_iff]
    have hold : ∀ x ∈ keys ledger, x ∈ (sortBy id (keys ledger)).take (ledger.length - MAX_ROUNDS) ↔
        x ∉ greatest MAX_ROUNDS (elements (keys ledger)) := by
      intro x hx
      have htake := mem_take_sorted (k := MAX_ROUNDS) hsorted (hperm.mem_iff.mpr hx)
      rwa [hset, hperm.length_eq, hlength] at htake
    ext x
    rw [mem_elements]
    constructor
    · intro hx
      obtain ⟨r, hr, rfl⟩ := mem_map.mp hx
      obtain ⟨hr, hkept⟩ := mem_filter.mp hr
      by_contra hnot
      exact of_decide_eq_true hkept ((hold _ (mem_map.mpr ⟨r, hr, rfl⟩)).mpr hnot)
    · intro hx
      have hin := mem_elements.mp (greatest_subset _ _ hx)
      obtain ⟨r, hr, rfl⟩ := mem_map.mp hin
      refine mem_map.mpr ⟨r, mem_filter.mpr ⟨hr, decide_eq_true fun htake => ?_⟩, rfl⟩
      exact (hold _ hin).mp htake hx

/-! ## Runs -/

inductive Op
  | record (remote : Json) (corner : Text) (now : Option ℤ) (cancel_reason : Option Text)
  | reload

/-- One call; a call that raises changes nothing. -/
def step (str : Json → Text) (fits : Ledger → Bool) (ledger : Ledger) : Op → Ledger
  | .record remote corner now cancel_reason =>
    match record str ledger remote corner now cancel_reason with
    | .ok (_, ledger) => ledger
    | .error _ => ledger
  | .reload => reload fits ledger

def after (str : Json → Text) (fits : Ledger → Bool) (ops : List Op) : Ledger := ops.foldl (step str fits) []

/-- The round of a settled row. -/
def settled (str : Json → Text) (row : Json) : Option Round :=
  match extract str row with
  | .ok round => round
  | .error _ => none

theorem settled_some (h : settled str row = some round) :
    extract str row = .ok (some round) := by
  unfold settled at h
  split at h
  · next heq =>
    cases h
    exact heq
  · cases h

def rounds (str : Json → Text) (rows : List Json) : List Round := rows.filterMap (settled str)

/-- Settled rows, one for each id. -/
structure Valid (str : Json → Text) (rows : List Json) : Prop where
  settled : ∀ row ∈ rows, (settled str row).isSome
  ids : ((rounds str rows).map Round.id).Nodup

/-- A call that delivers one of the rows, with arguments that `record` accepts. -/
def Delivery (str : Json → Text) (rows : List Json) : Op → Prop
  | .record remote corner now cancel_reason =>
    remote ∈ rows ∧ ∃ round r, settled str remote = some round ∧ stored round corner now cancel_reason = .ok r
  | .reload => True

/-- Calls that deliver all the rows, in any order and any number of times, and nothing else. -/
structure Delivers (str : Json → Text) (rows : List Json) (ops : List Op) : Prop where
  only : ∀ op ∈ ops, Delivery str rows op
  all : ∀ row ∈ rows, ∃ corner now cancel_reason, .record row corner now cancel_reason ∈ ops

def keyOf (str : Json → Text) : Op → Option (Text ×ₗ Text)
  | .record remote _ _ _ => (settled str remote).map key
  | .reload => none

section Runs

variable {str : Json → Text} {fits : Ledger → Bool} {rows : List Json}

theorem key_inj {round round' : Round} (hvalid : Valid str rows) (h : round ∈ rounds str rows)
    (h' : round' ∈ rounds str rows) (hid : round.id = round'.id) : round = round' :=
  inj_on_of_nodup_map hvalid.ids h h' hid

/-- The ledger has the greatest of the rounds that were delivered. -/
structure Sound (str : Json → Text) (rows : List Json) (ops : List Op) (ledger : Ledger) : Prop where
  checked : checkLedger ledger = true
  known : ∀ r ∈ ledger, r.round ∈ rounds str rows
  nodup : (ledger.map fun r => r.round.id).Nodup
  kept : elements (keys ledger) = greatest MAX_ROUNDS (elements (ops.filterMap (keyOf str)))

variable {ops : List Op} {ledger : Ledger} {remote : Json} {corner : Text} {now : Option ℤ}
    {cancel_reason : Option Text}

theorem Sound.keys (h : Sound str rows ops ledger) : (keys ledger).Nodup := by
  have hids : ((Predictions.keys ledger).map fun k => (ofLex k).2).Nodup := by
    rw [Predictions.keys, map_map]
    exact h.nodup
  exact Nodup.of_map _ hids

/-- The three ways in which a delivery is answered. -/
theorem record_eq {round : Round} {r : Recorded} (h : Sound str rows ops ledger)
    (hround : settled str remote = some round) (hr : stored round corner now cancel_reason = .ok r) :
    record str ledger remote corner now cancel_reason =
      if ∃ r ∈ ledger, r.round.id = round.id then .ok (false, ledger) else .ok (true, prune (ledger ++ [r])) := by
  have hextract := settled_some hround
  have hid := (extract_spec hextract).1
  unfold record
  rw [check_true h.checked, hid]
  change (if ∃ r ∈ ledger, r.round.id = round.id then Except.ok (false, ledger) else _) = _
  rw [hextract]
  change (if ∃ r ∈ ledger, r.round.id = round.id then Except.ok (false, ledger)
    else (stored round corner now cancel_reason >>= fun r => Except.ok (true, prune (ledger ++ [r])))) = _
  rw [hr]
  rfl

theorem sound_record (hvalid : Valid str rows)
    (h : Sound str rows ops ledger)
    (hop : Delivery str rows (.record remote corner now cancel_reason)) :
    Sound str rows (ops ++ [.record remote corner now cancel_reason])
      (step str fits ledger (.record remote corner now cancel_reason)) := by
  obtain ⟨hmem, round, r, hround, hr⟩ := hop
  have hin : round ∈ rounds str rows := mem_filterMap.mpr ⟨remote, hmem, hround⟩
  have hkey : keyOf str (.record remote corner now cancel_reason) = some (key round) := by simp [keyOf, hround]
  have hsnoc : (ops ++ [Op.record remote corner now cancel_reason]).filterMap (keyOf str) =
      ops.filterMap (keyOf str) ++ [key round] := by simp [hkey]
  simp only [step]
  rw [record_eq h hround hr]
  by_cases hthere : ∃ r ∈ ledger, r.round.id = round.id
  · rw [if_pos hthere]
    obtain ⟨r', hr', hid⟩ := hthere
    have hsame := key_inj hvalid (h.known r' hr') hin hid
    have hkeyin : key round ∈ ops.filterMap (keyOf str) := by
      refine mem_elements.mp (greatest_subset MAX_ROUNDS _ ?_)
      rw [← h.kept, mem_elements]
      exact mem_map.mpr ⟨r', hr', by rw [hsame]⟩
    exact { h with kept := by rw [hsnoc, elements_of_mem hkeyin, ← h.kept] }
  · rw [if_neg hthere]
    have hstored := (stored_ok hr).1
    have hknown : ∀ r' ∈ ledger ++ [r], r'.round ∈ rounds str rows := by
      intro r' hr'
      rcases mem_append.mp hr' with hr' | hr'
      · exact h.known r' hr'
      · rw [mem_singleton.mp hr', hstored]
        exact hin
    have hids : ((ledger ++ [r]).map fun r => r.round.id).Nodup := by
      rw [map_append, nodup_append]
      refine ⟨h.nodup, by simp, fun a ha b hb hab => ?_⟩
      obtain ⟨r', hr', rfl⟩ := mem_map.mp ha
      simp only [map_cons, map_nil, mem_singleton, hstored] at hb
      exact hthere ⟨r', hr', hab.trans hb⟩
    have hkeys : (keys (ledger ++ [r])).Nodup := by
      have hmap : ((keys (ledger ++ [r])).map fun k => (ofLex k).2).Nodup := by
        rw [keys, map_map]
        exact hids
      exact Nodup.of_map _ hmap
    have hsub := prune_sublist (ledger ++ [r])
    exact {
      checked := by
        rw [checkLedger, all_eq_true]
        intro r' hr'
        rcases mem_append.mp (hsub.subset hr') with hr' | hr'
        · exact all_eq_true.mp h.checked r' hr'
        · rw [mem_singleton.mp hr']
          exact checkRound_stored (settled_some hround) hr
      known := fun r' hr' => hknown r' (hsub.subset hr')
      nodup := (hsub.map _).nodup hids
      kept := by
        have hgrown : keys (ledger ++ [r]) = keys ledger ++ [key round] := by simp [keys, hstored]
        rw [prune_spec hkeys, hsnoc, hgrown, greatest_snoc h.kept] }

theorem sound_reload (h : Sound str rows ops ledger) :
    Sound str rows (ops ++ [.reload]) (reload fits ledger) := by
  have hkept : elements (keys ledger) = greatest MAX_ROUNDS (elements ((ops ++ [Op.reload]).filterMap (keyOf str))) := by
    rw [filterMap_append, filterMap_cons_none rfl, filterMap_nil, append_nil]
    exact h.kept
  unfold reload
  split
  · have hperm : (sortBy (fun r : Recorded => r.round.id) ledger).Perm ledger := sortBy_perm _ ledger
    exact {
      checked := by
        rw [checkLedger, all_eq_true]
        exact fun r hr => all_eq_true.mp h.checked r (hperm.mem_iff.mp hr)
      known := fun r hr => h.known r (hperm.mem_iff.mp hr)
      nodup := (hperm.map _).nodup_iff.mpr h.nodup
      kept := by
        rw [← hkept]
        ext x
        rw [mem_elements, mem_elements, keys, keys, (hperm.map _).mem_iff] }
  · exact { h with kept := hkept }

/-- After any calls the ledger has the greatest of the rounds that were delivered. -/
theorem sound_after (hvalid : Valid str rows) (hops : ∀ op ∈ ops, Delivery str rows op) :
    Sound str rows ops (after str fits ops) := by
  induction ops using List.reverseRecOn with
  | nil =>
    exact {
      checked := rfl
      known := nofun
      nodup := nodup_nil
      kept := by
        ext x
        simp [after, keys, mem_greatest] }
  | append_singleton ops op ih =>
    have hbefore := ih fun op hop => hops op (mem_append_left _ hop)
    have hop := hops op (mem_append_right _ (mem_singleton_self op))
    rw [after, foldl_append, ← after, foldl_cons, foldl_nil]
    cases op with
    | record remote corner now cancel_reason => exact sound_record hvalid hbefore hop
    | reload => exact sound_reload hbefore

end Runs

end Docich.Predictions
