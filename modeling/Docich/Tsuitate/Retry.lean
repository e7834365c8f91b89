import Docich.Tsuitate.Choose
import Docich.Tsuitate.Legality
import Mathlib.Algebra.Group.Action.Defs
import Mathlib.Algebra.Order.BigOperators.Group.List
import Mathlib.Data.List.Dedup

/-!
# The retry loop

Every pool consists of available moves, and the choice fails only when none is available. So each rejection removes the
path of a generated move, and the loop ends after as many rejections as there are paths.
-/

namespace Docich.Tsuitate

open Observation List

/-! ## Pools -/

section Pools

variable {o : Observation} {opt : Options} {c : Candidate}

theorem mem_available :
    c ∈ o.available opt ↔ c ∈ o.generated opt ∧ c.usi ∉ forbidden opt ∧
      c.usi.path ∉ rejectedPaths (o.generated opt) (rejected opt) := by
  unfold Observation.available
  rw [mem_filter, decide_eq_true_eq]

theorem checkResponses_subset {candidates : List Candidate} (h : c ∈ o.checkResponses candidates) : c ∈ candidates := by
  unfold checkResponses at h
  split at h
  · exact mem_of_mem_filter h
  · exact h

theorem responses_subset (h : c ∈ o.responses opt) : c ∈ o.available opt := by
  unfold responses at h
  split at h
  · exact checkResponses_subset h
  · exact h

theorem shorter_ok {king : Square} {rejected paths : List Usi} {short : Usi}
    (h : o.shorter king rejected paths c = some short) : short ∉ paths := by
  unfold shorter at h
  split at h
  · cases h
  · dsimp only at h
    split at h
    · cases h
    · split at h
      · cases h
      · split at h
        · cases h
        · split at h
          · cases h
          · next hnot =>
            cases h
            exact hnot

theorem retries_subset (h : c ∈ o.retries opt) : c ∈ o.available opt := by
  unfold retries shortRayRetries at h
  split at h
  · cases h
  · split at h
    · obtain ⟨hgenerated, hboth⟩ := mem_filter.mp h
      obtain ⟨hfree, hadjacent⟩ := of_decide_eq_true hboth
      obtain ⟨_, -, hshort⟩ := mem_filterMap.mp hadjacent
      exact mem_available.mpr ⟨hgenerated, hfree, shorter_ok hshort⟩
    · cases h

theorem escapeCandidates_subset (h : c ∈ o.escapeCandidates opt) : c ∈ o.available opt := by
  unfold escapeCandidates at h
  split at h
  · exact mem_of_mem_filter h
  · cases h

theorem escapes_subset (h : c ∈ o.escapes opt) : c ∈ o.available opt := by
  unfold escapes at h
  split at h
  · exact escapeCandidates_subset h
  · cases h

theorem evidenceResponses_subset (h : c ∈ o.evidenceResponses opt) : c ∈ o.available opt := by
  unfold evidenceResponses at h
  split at h
  · exact responses_subset (mem_of_mem_filter h)
  · cases h

theorem recaptures_subset (h : c ∈ o.recaptures opt) : c ∈ o.available opt := by
  unfold recaptures at h
  split at h
  · cases h
  · exact mem_of_mem_filter h

/-- No pool ignores the exclusions. -/
theorem chosenPool_subset (h : c ∈ o.chosenPool opt) : c ∈ o.available opt := by
  unfold chosenPool at h
  split at h
  · exact recaptures_subset h
  · split at h
    · rcases List.mem_append.mp h with h | h
      · exact evidenceResponses_subset h
      · exact escapes_subset h
    · split at h
      · exact retries_subset h
      · split at h
        · exact responses_subset h
        · exact h

/-- The chosen pool is empty only when nothing is available. -/
theorem chosenPool_ne_nil (h : o.available opt ≠ []) : o.chosenPool opt ≠ [] := by
  unfold chosenPool
  split
  · assumption
  · split
    · next hescapes => exact fun hnil => hescapes (append_eq_nil_iff.mp hnil).2
    · split
      · assumption
      · split
        · assumption
        · exact h

end Pools

/-! ## The choice within a pool -/

section Select

variable {o : Observation} {opt : Options} {candidates : List Candidate}

/-- A candidate with its score. -/
def Scored.graded (c : Scored) : Candidate × ℚ := (c.candidate, c.score)

variable (scored : List Scored)

include scored

theorem map_graded_ite (p : Scored → Bool) (f : Scored → ℤ) :
    (scored.map fun c => if p c then { c with priority := f c } else c).map Scored.graded =
      scored.map Scored.graded := by
  rw [map_map]
  apply map_congr_left
  intro c _
  by_cases h : p c <;> simp [h, Scored.graded]

theorem deferDrops_graded :
    (o.deferDrops scored).map Scored.graded = scored.map Scored.graded := map_graded_ite scored _ _

theorem preferEvidence_graded :
    (o.preferEvidence opt scored).map Scored.graded = scored.map Scored.graded := by
  unfold preferEvidence
  split
  · exact map_graded_ite scored _ _
  · rfl

theorem deferKing_graded :
    (o.deferKing opt scored).map Scored.graded = scored.map Scored.graded := by
  unfold deferKing
  split
  · rw [map_map]
    apply map_congr_left
    intro c _
    by_cases h : c.candidate.role = .K <;> simp [h, Scored.graded]
  · rfl

theorem orderEscapes_graded :
    (o.orderEscapes opt scored).map Scored.graded = scored.map Scored.graded := by
  unfold orderEscapes
  split
  · rfl
  · split
    · exact map_graded_ite scored _ _
    · rfl

omit scored

/-- Priorities keep the candidates and their scores. -/
theorem scoredPool_graded : (o.scoredPool opt candidates).map Scored.graded = candidates.map fun c => (c, o.score opt c) := by
  unfold scoredPool
  rw [orderEscapes_graded, deferKing_graded, preferEvidence_graded, deferDrops_graded, map_map]
  rfl

variable {β : Type} {pool : List Scored} {c : Scored}

theorem exists_largest [LinearOrder β] (key : Scored → β) (h : pool ≠ []) :
    ∃ c ∈ pool, ∀ a ∈ pool, key a ≤ key c := by
  induction pool with
  | nil => exact absurd rfl h
  | cons a pool ih =>
    rcases eq_or_ne pool [] with rfl | hne
    · exact ⟨a, mem_cons_self, by simp⟩
    obtain ⟨c, hc, hmax⟩ := ih hne
    rcases le_total (key a) (key c) with hle | hle
    · exact ⟨c, mem_cons_of_mem _ hc, by simpa [hle] using hmax⟩
    · exact ⟨a, mem_cons_self, by simpa using fun b hb => (hmax b hb).trans hle⟩

theorem best_ne_nil [LinearOrder β] (key : Scored → β) (h : pool ≠ []) :
    best key pool ≠ [] := by
  obtain ⟨c, hc, hmax⟩ := exists_largest key h
  apply ne_nil_of_mem (a := c)
  exact mem_filter.mpr ⟨hc, by simpa using hmax⟩

theorem mem_best [LinearOrder β] {key : Scored → β} (h : c ∈ best key pool) :
    c ∈ pool := mem_of_mem_filter h

/-- A choice is a member of the pool, with its score. -/
theorem select_graded (h : o.select opt candidates = some c) :
    c.candidate ∈ candidates ∧ c.score = o.score opt c.candidate := by
  unfold select at h
  have hmem := mem_of_getElem? h
  have hpool : c ∈ o.scoredPool opt candidates := by
    split at hmem
    · exact mem_best hmem
    · exact mem_best (mem_best hmem)
  have hgraded := mem_map_of_mem (f := Scored.graded) hpool
  rw [scoredPool_graded] at hgraded
  obtain ⟨a, ha, heq⟩ := mem_map.mp hgraded
  obtain ⟨rfl, hscore⟩ := Prod.mk.inj heq
  exact ⟨ha, hscore.symm⟩

theorem select_mem (h : o.select opt candidates = some c) : c.candidate ∈ candidates := (select_graded h).1

/-- A pool that is not empty has a choice. -/
theorem select_isSome (h : candidates ≠ []) : (o.select opt candidates).isSome = true := by
  have hscored : o.scoredPool opt candidates ≠ [] := by
    intro hnil
    have hmap : (o.scoredPool opt candidates).map Scored.graded = candidates.map fun c => (c, o.score opt c) := scoredPool_graded
    rw [hnil] at hmap
    exact h (map_eq_nil_iff.mp hmap.symm)
  unfold select
  dsimp only
  have hne : (if explores opt then best Scored.priority (o.scoredPool opt candidates)
      else best Scored.score (best Scored.priority (o.scoredPool opt candidates))) ≠ [] := by
    split
    · exact best_ne_nil _ hscored
    · exact best_ne_nil _ (best_ne_nil _ hscored)
  generalize (if explores opt then best Scored.priority (o.scoredPool opt candidates)
    else best Scored.score (best Scored.priority (o.scoredPool opt candidates))) = pool at hne
  rw [List.getElem?_eq_getElem (Nat.mod_lt _ (length_pos_iff.mpr hne))]
  rfl

end Select

/-! ## One attempt -/

/-- A call that is not refused: the mover is to play without a budget, with a linear profile, a seed of the admitted
length and no moves forbidden besides the fouls. -/
structure Ready (o : Observation) (opt : Options) : Prop where
  turn : o.turn = o.color
  budget : o.attemptBudget = none
  linear : opt.profile.isLegacy = false
  seed : utf16Length opt.seed ≤ 512
  forbidden : opt.forbiddenMoves = []

/-- The options with the fouls so far. -/
def Options.after (opt : Options) (fouls : List Usi) : Options := { opt with foulMoves := fouls }

section Attempt

variable {o : Observation} {opt : Options} {fouls : List Usi}

theorem chooseMove_eq (h : Ready o opt) (hfouls : fouls.length ≤ 4096) :
    o.chooseMove (opt.after fouls) = (o.select (opt.after fouls) (o.chosenPool (opt.after fouls))).map fun c =>
      ⟨c.candidate.usi, o.features c.candidate (validRecentMoves opt.recentMoves), c.score, opt.profile.id,
        (o.chosenPool (opt.after fouls)).length⟩ := by
  unfold chooseMove
  rw [if_neg]
  · rfl
  · simp only [Options.after, h.turn, h.budget, h.forbidden, ne_eq, not_true_eq_false, false_or, length_nil,
      reduceCtorEq, not_or, not_lt]
    exact ⟨h.seed, Nat.zero_le _, hfouls⟩

theorem generated_eq (h : Ready o opt) : o.generated (opt.after fouls) = o.candidatesFor false := by
  unfold generated
  have : (opt.after fouls).profile.isLegacy = false := h.linear
  rw [this, Bool.false_and]

theorem candidate_wellFormed {c : Candidate} (hc : c ∈ o.candidatesFor false) : c.usi.wellFormed = true := by
  rcases mem_candidatesFor.mp hc with ⟨p, hp, s, hs, hc⟩ | hc
  · have hin := ((mem_destinations hp).mp hs).1
    obtain ⟨_, rfl, -, -⟩ := (mem_append hin).mp hc
    exact decide_eq_true ⟨o.pieces_inBounds p hp, hin⟩
  · obtain ⟨role, hrole, -, s, hs, rfl⟩ := mem_drops.mp hc
    exact decide_eq_true ⟨hrole, (mem_dropSquares.mp hs).1⟩

/-- After fouls of generated moves, what is available are the generated moves whose path has not fouled. -/
theorem mem_available_after (h : Ready o opt) (hfouls : ∀ f ∈ fouls, ∃ c ∈ o.candidatesFor false, c.usi = f)
    {c : Candidate} :
    c ∈ o.available (opt.after fouls) ↔ c ∈ o.candidatesFor false ∧ ∀ f ∈ fouls, f.path ≠ c.usi.path := by
  have hrejected : rejected (opt.after fouls) = fouls := by
    apply filter_eq_self.mpr
    intro f hf
    obtain ⟨c, hc, rfl⟩ := hfouls f hf
    exact candidate_wellFormed hc
  have hlinear : (opt.after fouls).profile.isLegacy = false := h.linear
  have hnone : (opt.after fouls).forbiddenMoves = [] := h.forbidden
  have hforbidden : forbidden (opt.after fouls) = fouls := by
    unfold Observation.forbidden
    rw [hrejected, hlinear, hnone]
    simp
  rw [mem_available, generated_eq h, hrejected, hforbidden]
  constructor
  · rintro ⟨hc, -, hpath⟩
    refine ⟨hc, fun f hf he => hpath ?_⟩
    obtain ⟨c', hc', rfl⟩ := hfouls f hf
    exact mem_map.mpr ⟨c', mem_filter.mpr ⟨hc', decide_eq_true hf⟩, he⟩
  · rintro ⟨hc, hpath⟩
    refine ⟨hc, fun hf => hpath c.usi hf rfl, fun hmem => ?_⟩
    obtain ⟨c', hc', he⟩ := mem_map.mp hmem
    exact hpath c'.usi (of_decide_eq_true (mem_filter.mp hc').2) he

end Attempt

/-! ## How many paths there are -/

def Observation.generatedPaths (o : Observation) : List Usi :=
  ((o.candidatesFor false).map fun c => c.usi.path).dedup

theorem length_raySquares (o : Observation) (source : Square) (d : ℤ × ℤ) (n step : ℕ) :
    (o.raySquares source d n step).length ≤ n := by
  induction n generalizing step with
  | zero => exact le_rfl
  | succ n ih =>
    unfold raySquares
    dsimp only
    split
    · exact Nat.zero_le _
    · split
      · exact Nat.succ_le_succ (Nat.zero_le n)
      · exact Nat.succ_le_succ (ih _)

theorem length_movement (role : Role) (f : ℤ) : (movement role f false).steps.length + (movement role f false).rays.length * 8 ≤ 36 := by
  cases role <;> simp [movement, rayMovement, gold, orthogonals, diagonals]

theorem length_destinations (o : Observation) (p : Piece) : (o.destinations false p).length ≤ 36 := by
  have hrays : ((movement p.role (forward o.color) false).rays.flatMap fun d => o.raySquares p.square d 8 1).length ≤
      (movement p.role (forward o.color) false).rays.length * 8 := by
    rw [length_flatMap]
    refine (sum_le_card_nsmul _ 8 ?_).trans ?_
    · intro n hn
      obtain ⟨d, -, rfl⟩ := mem_map.mp hn
      exact length_raySquares o _ _ _ _
    · simp
  have hsteps : (o.stepSquares p.square (movement p.role (forward o.color) false).steps).length ≤
      (movement p.role (forward o.color) false).steps.length := by
    exact (length_filter_le _ _).trans (length_map _).le
  unfold destinations
  rw [length_append]
  have := length_movement p.role (forward o.color)
  omega

/-- The paths of all moves and drops that could be generated. -/
def Observation.allPaths (o : Observation) : List Usi :=
  (o.pieces.flatMap fun p => (o.destinations false p).map fun s => .move p.square s false) ++
    handRoles.flatMap fun role => boardSquares.map fun s => .drop role s

theorem length_allPaths (o : Observation) : o.allPaths.length ≤ 4096 := by
  unfold allPaths
  rw [length_append, length_flatMap]
  have hmoves : (o.pieces.map fun p => ((o.destinations false p).map fun s => Usi.move p.square s false).length).sum ≤
      81 * 36 := by
    refine (sum_le_card_nsmul _ 36 ?_).trans ?_
    · intro n hn
      obtain ⟨p, -, rfl⟩ := mem_map.mp hn
      rw [length_map]
      exact length_destinations o p
    · rw [length_map, smul_eq_mul]
      exact Nat.mul_le_mul_right 36 o.pieces_length
  have hdrops : (handRoles.flatMap fun role => boardSquares.map fun s => Usi.drop role s).length = 567 := by
    simp [length_flatMap, handRoles, boardSquares]
  omega

theorem path_mem_allPaths {o : Observation} {c : Candidate} (hc : c ∈ o.candidatesFor false) :
    c.usi.path ∈ o.allPaths := by
  rcases mem_candidatesFor.mp hc with ⟨p, hp, s, hs, hc⟩ | hc
  · have hin := ((mem_destinations hp).mp hs).1
    obtain ⟨_, rfl, -, -⟩ := (mem_append hin).mp hc
    exact mem_append_left _ (mem_flatMap.mpr ⟨p, hp, mem_map.mpr ⟨s, hs, rfl⟩⟩)
  · obtain ⟨role, hrole, -, s, hs, rfl⟩ := mem_drops.mp hc
    exact mem_append_right _ (mem_flatMap.mpr
      ⟨role, hrole, mem_map.mpr ⟨s, mem_boardSquares.mpr (mem_dropSquares.mp hs).1, rfl⟩⟩)

theorem length_generatedPaths (o : Observation) : o.generatedPaths.length ≤ 4096 := by
  have hsubset : o.generatedPaths ⊆ o.allPaths := by
    intro path hpath
    obtain ⟨c, hc, rfl⟩ := mem_map.mp (mem_dedup.mp hpath)
    exact path_mem_allPaths hc
  exact (subperm_of_subset (nodup_dedup _) hsubset).length_le.trans (length_allPaths o)

/-! ## The loop -/

/-- The fouls after some rounds of the loop with a referee. -/
inductive Fouls (o : Observation) (opt : Options) (accepts : Usi → Bool) : List Usi → Prop
  | start : Fouls o opt accepts []
  | reject {fouls : List Usi} {choice : Choice} (before : Fouls o opt accepts fouls)
      (proposed : o.chooseMove (opt.after fouls) = some choice) (rejects : accepts choice.usi = false) :
      Fouls o opt accepts (fouls ++ [choice.usi])

/-- The loop: the fouls at its end, and the accepted move if there is one. -/
def retry (o : Observation) (opt : Options) (accepts : Usi → Bool) : ℕ → List Usi → List Usi × Option Usi
  | 0, fouls => (fouls, none)
  | n + 1, fouls =>
    match o.chooseMove (opt.after fouls) with
    | none => (fouls, none)
    | some choice =>
      if accepts choice.usi then (fouls, some choice.usi) else retry o opt accepts n (fouls ++ [choice.usi])

section Loop

variable {o : Observation} {opt : Options} {accepts : Usi → Bool} {fouls : List Usi}

/-- What the loop keeps: the fouls are rejected generated moves, no two of one path. -/
structure Tried (o : Observation) (accepts : Usi → Bool) (fouls : List Usi) : Prop where
  generated : ∀ f ∈ fouls, ∃ c ∈ o.candidatesFor false, c.usi = f
  rejected : ∀ f ∈ fouls, accepts f = false
  nodup : (fouls.map Usi.path).Nodup

variable (h : Tried o accepts fouls)

include h

theorem Tried.length_le : fouls.length ≤ o.generatedPaths.length := by
  have hsubset : fouls.map Usi.path ⊆ o.generatedPaths := by
    intro path hpath
    obtain ⟨f, hf, rfl⟩ := mem_map.mp hpath
    obtain ⟨c, hc, rfl⟩ := h.generated f hf
    exact mem_dedup.mpr (mem_map_of_mem hc)
  have := (subperm_of_subset h.nodup hsubset).length_le
  rwa [length_map] at this

variable (hr : Ready o opt)

include hr

/-- A proposal is a generated move on a path that has not fouled. -/
theorem Tried.proposed {choice : Choice}
    (hc : o.chooseMove (opt.after fouls) = some choice) :
    (∃ c ∈ o.candidatesFor false, c.usi = choice.usi) ∧ ∀ f ∈ fouls, f.path ≠ choice.usi.path := by
  rw [chooseMove_eq hr (h.length_le.trans (length_generatedPaths o))] at hc
  obtain ⟨scored, hselect, rfl⟩ := Option.map_eq_some_iff.mp hc
  have hmem := chosenPool_subset (select_mem hselect)
  obtain ⟨hgenerated, hpath⟩ := (mem_available_after hr h.generated).mp hmem
  exact ⟨⟨_, hgenerated, rfl⟩, hpath⟩

/-- Nothing is proposed only when every path has fouled. -/
theorem Tried.exhausted (hc : o.chooseMove (opt.after fouls) = none) :
    ∀ c ∈ o.candidatesFor false, ∃ f ∈ fouls, f.path = c.usi.path := by
  rw [chooseMove_eq hr (h.length_le.trans (length_generatedPaths o)), Option.map_eq_none_iff] at hc
  have hempty : o.available (opt.after fouls) = [] := by
    by_contra hne
    have hselect : (o.select (opt.after fouls) (o.chosenPool (opt.after fouls))).isSome = true :=
      select_isSome (chosenPool_ne_nil hne)
    rw [hc] at hselect
    cases hselect
  intro c hc
  by_contra hnone
  have hmem := (mem_available_after hr h.generated).mpr ⟨hc, fun f hf he => hnone ⟨f, hf, he⟩⟩
  rw [hempty] at hmem
  cases hmem

theorem Tried.reject {choice : Choice}
    (hc : o.chooseMove (opt.after fouls) = some choice) (hrejects : accepts choice.usi = false) :
    Tried o accepts (fouls ++ [choice.usi]) := by
  obtain ⟨hgenerated, hpath⟩ := h.proposed hr hc
  refine ⟨?_, ?_, ?_⟩
  · intro f hf
    rcases List.mem_append.mp hf with hf | hf
    · exact h.generated f hf
    · rwa [List.mem_singleton.mp hf]
  · intro f hf
    rcases List.mem_append.mp hf with hf | hf
    · exact h.rejected f hf
    · rwa [List.mem_singleton.mp hf]
  · rw [List.map_append, List.map_singleton]
    refine List.nodup_append'.mpr ⟨h.nodup, List.nodup_singleton _, ?_⟩
    intro path hmem hlast
    obtain ⟨f, hf, rfl⟩ := List.mem_map.mp hmem
    exact hpath f hf (List.mem_singleton.mp hlast)

omit hr

omit h

include hr

theorem Fouls.tried (h : Fouls o opt accepts fouls) : Tried o accepts fouls := by
  induction h with
  | start => exact ⟨fun _ h => (nomatch h), fun _ h => (nomatch h), nodup_nil⟩
  | reject _ hc hrejects ih => exact ih.reject hr hc hrejects

/-- While an acceptable path is left, the loop goes on until a move is accepted. -/
theorem retry_accepts (hsiblings : ∀ c ∈ o.candidatesFor false, ∀ c' ∈ o.candidatesFor false, c.usi.path = c'.usi.path →
      accepts c.usi = accepts c'.usi)
    (hsome : ∃ c ∈ o.candidatesFor false, accepts c.usi = true) (n : ℕ) (h : Fouls o opt accepts fouls)
    (hn : o.generatedPaths.length < n + fouls.length) :
    ∃ fouls' usi, retry o opt accepts n fouls = (fouls', some usi) ∧ accepts usi = true ∧ Fouls o opt accepts fouls' := by
  induction n generalizing fouls with
  | zero =>
    have := (h.tried hr).length_le
    omega
  | succ n ih =>
    unfold retry
    cases hc : o.chooseMove (opt.after fouls) with
    | none =>
      obtain ⟨c, hcandidate, haccepts⟩ := hsome
      obtain ⟨f, hf, hpath⟩ := (h.tried hr).exhausted hr hc c hcandidate
      obtain ⟨c', hc', rfl⟩ := (h.tried hr).generated f hf
      have hsame := hsiblings c' hc' c hcandidate hpath
      rw [(h.tried hr).rejected _ hf, haccepts] at hsame
      cases hsame
    | some choice =>
      dsimp only
      cases ha : accepts choice.usi with
      | true => exact ⟨fouls, choice.usi, rfl, ha, h⟩
      | false =>
        apply ih (h.reject hc ha)
        rw [length_append, length_singleton]
        omega

end Loop

/-- A pawn that can advance by one square. -/
def lonePawn (turn : Color) : Observation where
  color := .b
  turn := turn
  moveNumber := 1
  pieces := [⟨⟨5, 5⟩, .P⟩]
  hand := fun _ => 0
  inCheck := none
  opponentInCheck := none
  attemptBudget := none
  knownEnemies := []
  moveNumber_pos := contradictory.moveNumber_pos
  pieces_length := contradictory.pieces_length
  pieces_inBounds := contradictory.pieces_inBounds
  pieces_nodup := contradictory.pieces_nodup
  hand_le := contradictory.hand_le
  attemptBudget_le := contradictory.attemptBudget_le
  knownEnemies_length := by simp
  knownEnemies_inBounds := by simp
  knownEnemies_nodup := by simp
  knownEnemies_age := by simp

def seeded (seed : String) : Options :=
  ⟨.linear "plain" ⟨0, 0, 0, 0, 0, 0, 0⟩ 0 (by simp [Features.toList]) (by simp), seed, [], [], []⟩

end Docich.Tsuitate
