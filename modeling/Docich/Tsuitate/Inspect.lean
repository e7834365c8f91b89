import Docich.Tsuitate.Retry

/-!
# The inspection of the candidates

- `inspectMoveCandidates`: the candidates with their features and scores, for policies outside of the brain;
- `length_candidatesFor`: there are never more candidates than the inspection admits;
- `inspect_agrees`: the moves that `chooseMove` chooses are inspected, and the same candidates run out.
-/

namespace Docich.Tsuitate

open Observation List

/-! ## The inspection -/

def Profile.weights : Profile → Features
  | .legacy _ => ⟨0, 0, 0, 0, 0, 0, 0⟩
  | .linear _ weights _ _ _ => weights

structure Inspected where
  usi : Usi
  role : Role
  features : Features
  score : ℚ
  unknownPathSquares : ℚ
  evidenceCapture : Bool

structure Inspection where
  observation : Observation
  profile : Profile
  seed : String
  candidates : List Inspected

def Observation.inspectMoveCandidates (o : Observation) (opt : Options) : Option Inspection :=
  if o.turn ≠ o.color ∨ o.attemptBudget = some 0 ∨ opt.profile.isLegacy ∨ 512 < utf16Length opt.seed ∨
      4096 < opt.forbiddenMoves.length ∨ 4096 < opt.foulMoves.length then none
  else
    let recent := validRecentMoves opt.recentMoves
    let generated := o.candidatesFor false
    if 4096 < generated.length then none
    else
      let forbidden := rejected opt ++ opt.forbiddenMoves.filter Usi.wellFormed
      let available := generated.filter fun c => c.usi ∉ forbidden ∧ c.usi.path ∉ rejectedPaths generated (rejected opt)
      let responses := if o.inCheck = some true then o.checkResponses available else available
      let eligible := if responses ≠ [] then responses else available
      some {
        observation := o
        profile := opt.profile
        seed := opt.seed
        candidates := eligible.map fun c =>
          let values := o.features c recent
          let pathPenalty := o.pathRisk c
          { usi := c.usi
            role := c.role
            features := values
            score := (List.zipWith (· * ·) values.toList opt.profile.weights.toList).sum - pathPenalty
            unknownPathSquares := pathPenalty / pathRiskWeight
            evidenceCapture := o.hasEvidence c && (o.inCheck ≠ some true || responses ≠ [] && c.role ≠ .K) } }

/-! ## How many candidates there are -/

variable (o : Observation)

include o

/-- A ray is no longer than the steps that stay on the board. -/
theorem length_raySquares_le {source : Square} {d : ℤ × ℤ} {room : ℕ}
    (hroom : ∀ k : ℕ, (source.shift (d.1 * k) (d.2 * k)).InBounds → k ≤ room) (n step : ℕ) :
    (o.raySquares source d n step).length ≤ room + 1 - step := by
  induction n generalizing step with
  | zero => exact Nat.zero_le _
  | succ n ih =>
    unfold raySquares
    dsimp only
    split
    · exact Nat.zero_le _
    · next hin =>
      rw [not_or, not_not] at hin
      have hstep := hroom step hin.1
      split
      · rw [length_singleton]
        omega
      · have hrest := ih (step + 1)
        rw [length_cons]
        omega

/-- Two rays in opposite directions have eight squares together at most. -/
theorem length_opposite {source : Square} (hin : source.InBounds) {d e : ℤ × ℤ}
    (h : d.1 = -1 ∧ e.1 = 1 ∨ d.1 = 0 ∧ e.1 = 0 ∧ d.2 = -1 ∧ e.2 = 1) :
    (o.raySquares source d 8 1).length + (o.raySquares source e 8 1).length ≤ 8 := by
  obtain ⟨hf1, hf9, hr1, hr9⟩ := hin
  rcases h with ⟨hd, he⟩ | ⟨hd, he, hd', he'⟩
  · have hleft : (o.raySquares source d 8 1).length ≤ (source.file - 1).toNat + 1 - 1 := length_raySquares_le o
      (fun k hk => by have := hk.1; simp only [Square.shift, hd] at this; omega) 8 1
    have hright : (o.raySquares source e 8 1).length ≤ (9 - source.file).toNat + 1 - 1 := length_raySquares_le o
      (fun k hk => by have := hk.2.1; simp only [Square.shift, he] at this; omega) 8 1
    omega
  · have hup : (o.raySquares source d 8 1).length ≤ (source.rank - 1).toNat + 1 - 1 := length_raySquares_le o
      (fun k hk => by have := hk.2.2.1; simp only [Square.shift, hd'] at this; omega) 8 1
    have hdown : (o.raySquares source e 8 1).length ≤ (9 - source.rank).toNat + 1 - 1 := length_raySquares_le o
      (fun k hk => by have := hk.2.2.2; simp only [Square.shift, he'] at this; omega) 8 1
    omega

theorem length_destinations_le {p : Piece} (hp : p ∈ o.pieces) : (o.destinations false p).length ≤ 20 := by
  have hin := o.pieces_inBounds p hp
  have hsteps : (o.stepSquares p.square (movement p.role (forward o.color) false).steps).length ≤
      (movement p.role (forward o.color) false).steps.length := by
    exact (length_filter_le _ _).trans (length_map _).le
  have horthogonal : (orthogonals.flatMap fun d => o.raySquares p.square d 8 1).length ≤ 16 := by
    have hranks := length_opposite o hin (d := (0, -1)) (e := (0, 1)) (.inr ⟨rfl, rfl, rfl, rfl⟩)
    have hfiles := length_opposite o hin (d := (-1, 0)) (e := (1, 0)) (.inl ⟨rfl, rfl⟩)
    simp only [orthogonals, flatMap_cons, flatMap_nil, length_append, length_nil]
    omega
  have hdiagonal : (diagonals.flatMap fun d => o.raySquares p.square d 8 1).length ≤ 16 := by
    have hfalling := length_opposite o hin (d := (-1, -1)) (e := (1, 1)) (.inl ⟨rfl, rfl⟩)
    have hrising := length_opposite o hin (d := (-1, 1)) (e := (1, -1)) (.inl ⟨rfl, rfl⟩)
    simp only [diagonals, flatMap_cons, flatMap_nil, length_append, length_nil]
    omega
  have hforward := length_raySquares o p.square (0, forward o.color) 8 1
  unfold destinations
  cases hrole : p.role <;>
    simp only [hrole, movement, rayMovement, Bool.false_eq_true, if_false, flatMap_nil, length_nil,
      flatMap_cons, length_append, length_map, length_cons] at hsteps ⊢ <;>
    simp only [gold, orthogonals, diagonals, length_cons, length_nil] at hsteps horthogonal hdiagonal ⊢ <;> omega

theorem length_append_le (legacy : Bool) (p : Piece) (s : Square) : (o.append legacy p s).length ≤ 2 := by
  unfold append
  rw [length_append]
  split_ifs <;> simp

omit o

theorem length_flatMap_le {α β : Type} {l : List α} {f : α → List β} {n : ℕ} (h : ∀ a ∈ l, (f a).length ≤ n) :
    (l.flatMap f).length ≤ l.length * n := by
  induction l with
  | nil => exact Nat.zero_le _
  | cons a l ih =>
    have hrest := ih fun b hb => h b (mem_cons_of_mem _ hb)
    have ha := h a mem_cons_self
    rw [flatMap_cons, length_append, length_cons, Nat.succ_mul]
    omega

include o

theorem length_drops : o.drops.length ≤ 567 := by
  refine (length_flatMap_le fun role _ => ?_ : _ ≤ handRoles.length * 81)
  split
  · exact Nat.zero_le _
  · rw [length_map]
    exact (length_filter_le _ _).trans (by simp [boardSquares])

/-- The inspection admits all candidates. -/
theorem length_candidatesFor : (o.candidatesFor false).length ≤ 4096 := by
  have hmoves : (o.sortedPieces.flatMap fun p => (o.destinations false p).flatMap fun s => o.append false p s).length ≤
      o.sortedPieces.length * 40 := by
    refine length_flatMap_le fun p hp => ?_
    have hp : p ∈ o.pieces := mem_insertionSort _ |>.mp hp
    have hsquares := length_destinations_le o hp
    have happend : ((o.destinations false p).flatMap fun s => o.append false p s).length ≤ (o.destinations false p).length * 2 :=
      length_flatMap_le fun s _ => length_append_le o false p s
    omega
  have hpieces : o.sortedPieces.length ≤ 81 := (length_insertionSort _ _).trans_le o.pieces_length
  have hdrops := length_drops o
  unfold candidatesFor
  rw [length_append, if_neg Bool.false_ne_true]
  omega

omit o

/-! ## The agreement -/

/-- What both accept: the mover is to play and has attempts left, a linear profile, and arguments within the limits. -/
structure Accepted (o : Observation) (opt : Options) : Prop where
  turn : o.turn = o.color
  budget : o.attemptBudget ≠ some 0
  linear : opt.profile.isLegacy = false
  seed : utf16Length opt.seed ≤ 512
  forbidden : opt.forbiddenMoves.length ≤ 4096
  fouls : opt.foulMoves.length ≤ 4096

section Agreement

variable {o : Observation} {opt : Options} {c : Candidate}

def Observation.eligible (o : Observation) (opt : Options) : List Candidate :=
  if o.responses opt ≠ [] then o.responses opt else o.available opt

theorem inspect_eq (h : Accepted o opt) : ∃ i, o.inspectMoveCandidates opt = some i ∧
    i.candidates.map (fun c => (c.usi, c.role, c.features, c.score)) = (o.eligible opt).map fun c =>
      (c.usi, c.role, o.features c (validRecentMoves opt.recentMoves), o.score opt c) := by
  have hgenerated : o.generated opt = o.candidatesFor false := by
    unfold generated
    rw [h.linear, Bool.false_and]
  have hforbidden : rejected opt ++ opt.forbiddenMoves.filter Usi.wellFormed = Observation.forbidden opt := by
    unfold Observation.forbidden
    rw [h.linear, if_neg Bool.false_ne_true, append_nil]
  have havailable : ((o.candidatesFor false).filter fun c => c.usi ∉ rejected opt ++ opt.forbiddenMoves.filter Usi.wellFormed ∧
      c.usi.path ∉ rejectedPaths (o.candidatesFor false) (rejected opt)) = o.available opt := by
    unfold available
    rw [hgenerated, hforbidden]
  have hscore : ∀ c, (List.zipWith (· * ·) (o.features c (validRecentMoves opt.recentMoves)).toList
      opt.profile.weights.toList).sum - o.pathRisk c = o.score opt c := by
    intro c
    have hlinear := h.linear
    unfold Observation.score
    cases hp : opt.profile with
    | legacy id =>
      rw [hp] at hlinear
      cases hlinear
    | linear id weights exploration hw he => rfl
  have hopen : ¬(o.turn ≠ o.color ∨ o.attemptBudget = some 0 ∨ opt.profile.isLegacy = true ∨ 512 < utf16Length opt.seed ∨
      4096 < opt.forbiddenMoves.length ∨ 4096 < opt.foulMoves.length) := by
    have hseed := h.seed
    have hforb := h.forbidden
    have hfouls := h.fouls
    simp only [h.turn, h.budget, h.linear, ne_eq, not_true_eq_false, false_or, Bool.false_eq_true]
    omega
  unfold inspectMoveCandidates
  rw [if_neg hopen]
  dsimp only
  rw [if_neg (Nat.not_lt.mpr (length_candidatesFor o)), havailable]
  refine ⟨_, rfl, ?_⟩
  rw [map_map]
  simp only [Function.comp_def, hscore]
  rfl

theorem king_responds {candidates : List Candidate} (hc : c ∈ candidates) (hrole : c.role = .K) :
    c ∈ o.checkResponses candidates := by
  unfold checkResponses
  split
  · refine mem_filter.mpr ⟨hc, ?_⟩
    exact if_pos hrole
  · exact hc

/-- In check, what is chosen from answers the check when something does. -/
theorem chosenPool_responds (hcheck : o.inCheck = some true) (hne : o.responses opt ≠ []) (h : c ∈ o.chosenPool opt) :
    c ∈ o.responses opt := by
  have hresponses : o.responses opt = o.checkResponses (o.available opt) := if_pos hcheck
  unfold chosenPool at h
  rw [show o.recaptures opt = [] from if_pos hcheck, if_neg (not_not_intro rfl)] at h
  split at h
  · rcases List.mem_append.mp h with h | h
    · unfold evidenceResponses at h
      rw [if_pos hcheck] at h
      exact List.mem_of_mem_filter h
    · unfold escapes at h
      split at h
      · have havailable := escapeCandidates_subset h
        unfold escapeCandidates at h
        split at h
        · rw [hresponses]
          exact king_responds havailable (of_decide_eq_true (List.mem_filter.mp h).2)
        · cases h
      · cases h
  · rw [show o.retries opt = [] from if_pos (by rw [hcheck]; decide), if_neg (not_not_intro rfl)] at h
    exact h

/-- Every pool is among the candidates that are inspected. -/
theorem chosenPool_eligible (h : c ∈ o.chosenPool opt) : c ∈ o.eligible opt := by
  unfold Observation.eligible
  by_cases hne : o.responses opt ≠ []
  · rw [if_pos hne]
    by_cases hcheck : o.inCheck = some true
    · exact chosenPool_responds hcheck hne h
    · rw [show o.responses opt = o.available opt from if_neg hcheck]
      exact chosenPool_subset h
  · rw [if_neg hne]
    exact chosenPool_subset h

theorem chooseMove_accepted (h : Accepted o opt) :
    o.chooseMove opt = (o.select opt (o.chosenPool opt)).map fun c =>
      ⟨c.candidate.usi, o.features c.candidate (validRecentMoves opt.recentMoves), c.score, opt.profile.id,
        (o.chosenPool opt).length⟩ := by
  have hseed := h.seed
  have hforbidden := h.forbidden
  have hfouls := h.fouls
  refine if_neg ?_
  simp only [h.turn, h.budget, ne_eq, not_true_eq_false, false_or]
  omega

end Agreement

/-- **Inspection and play.** What both accept is inspected; a move that is chosen is inspected, with its features and its
score, and none is chosen exactly when there is none to inspect. -/
theorem inspect_agrees {o : Observation} {opt : Options} (h : Accepted o opt) :
    ∃ i, o.inspectMoveCandidates opt = some i ∧
      (∀ choice, o.chooseMove opt = some choice →
        ∃ c ∈ i.candidates, c.usi = choice.usi ∧ c.features = choice.features ∧ c.score = choice.score) ∧
      (o.chooseMove opt = none ↔ i.candidates = []) := by
  obtain ⟨i, hi, hcandidates⟩ := inspect_eq h
  refine ⟨i, hi, fun choice hchoice => ?_, ?_⟩
  · rw [chooseMove_accepted h] at hchoice
    obtain ⟨s, hs, rfl⟩ := Option.map_eq_some_iff.mp hchoice
    obtain ⟨hpool, hscore⟩ := select_graded hs
    have hmem := mem_map_of_mem (f := fun c => (c.usi, c.role, o.features c (validRecentMoves opt.recentMoves), o.score opt c))
      (chosenPool_eligible hpool)
    rw [← hcandidates] at hmem
    obtain ⟨c, hc, heq⟩ := mem_map.mp hmem
    obtain ⟨husi, -, hfeatures, hvalue⟩ := by simpa only [Prod.mk.injEq] using heq
    exact ⟨c, hc, husi, hfeatures, hvalue.trans hscore.symm⟩
  · have hnil : i.candidates = [] ↔ o.available opt = [] := by
      have hlength := congrArg List.length hcandidates
      rw [length_map, length_map] at hlength
      rw [← length_eq_zero_iff, hlength, length_eq_zero_iff]
      unfold Observation.eligible
      constructor
      · intro he
        split at he
        · next hne => exact absurd he hne
        · exact he
      · intro he
        have hresponses : o.responses opt = [] :=
          eq_nil_iff_forall_not_mem.mpr fun c hc => by
            have := responses_subset hc
            rw [he] at this
            cases this
        rw [hresponses, if_neg (not_not_intro rfl)]
        exact he
    rw [hnil, chooseMove_accepted h, Option.map_eq_none_iff]
    constructor
    · intro hnone
      by_contra hne
      have hsome : (o.select opt (o.chosenPool opt)).isSome = true := select_isSome (chosenPool_ne_nil hne)
      rw [hnone] at hsome
      cases hsome
    · intro he
      cases hs : o.select opt (o.chosenPool opt) with
      | none => rfl
      | some s =>
        have := chosenPool_subset (select_graded hs).1
        rw [he] at this
        cases this

theorem inspect_agrees_lonePawn : ∃ i, (lonePawn .b).inspectMoveCandidates (seeded "") = some i ∧
    (∀ choice, (lonePawn .b).chooseMove (seeded "") = some choice →
      ∃ c ∈ i.candidates, c.usi = choice.usi ∧ c.features = choice.features ∧ c.score = choice.score) ∧
    ((lonePawn .b).chooseMove (seeded "") = none ↔ i.candidates = []) :=
  inspect_agrees ⟨rfl, by decide, rfl, by decide, Nat.zero_le _, Nat.zero_le _⟩

end Docich.Tsuitate
