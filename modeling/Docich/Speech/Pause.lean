import Mathlib.Algebra.Order.Field.Rat
import Mathlib.Data.List.Chain

/-!
# Pauses before `ny`

`apply_ny_pause_fix` puts a pause between a mora with the vowel `i` and one with the consonant `ny`: it splits a phrase at
the first such place, and then looks at the borders of the phrases. So it is complete exactly when no phrase has two such
places (`pause_fix_complete_iff`).
-/

namespace Docich.Speech

open List Option

structure Mora where
  text : String
  consonant : Option String
  consonantLength : Option ℚ
  vowel : Option String
  vowelLength : ℚ
  pitch : ℚ

structure AccentPhrase where
  moras : List Mora
  accent : ℤ
  pauseMora : Option Mora
  isInterrogative : Bool

structure SpeechError where
  message : String
  pauseLen : ℚ

/-! ## The fix -/

def pauseMora (length : ℚ) : Mora := ⟨"、", none, none, some "pau", length, 0⟩

def isINy (prev cur : Mora) : Bool := cur.consonant = some "ny" && (prev.vowel.getD "").toLower = "i"

/-- The first index at which a phrase is split. -/
def firstINy : List Mora → Option ℕ
  | a :: b :: moras => if isINy a b then some 1 else (firstINy (b :: moras)).map (· + 1)
  | _ => none

def splitPhrase (pauseLen : ℚ) (phrase : AccentPhrase) : List AccentPhrase :=
  match firstINy phrase.moras with
  | none => [phrase]
  | some idx =>
    [ { moras := phrase.moras.take idx
        accent := min phrase.accent idx
        pauseMora := some (pauseMora pauseLen)
        isInterrogative := false },
      { moras := phrase.moras.drop idx
        accent := max 1 (min (phrase.accent - idx) (phrase.moras.length - idx))
        pauseMora := phrase.pauseMora
        isInterrogative := phrase.isInterrogative }]

/-- A phrase before another one. -/
def atBorder (pauseLen : ℚ) (cur nxt : AccentPhrase) : AccentPhrase :=
  match cur.moras.getLast?, nxt.moras.head? with
  | some a, some b => if cur.pauseMora = none ∧ isINy a b then { cur with pauseMora := some (pauseMora pauseLen) } else cur
  | _, _ => cur

def atBorders (pauseLen : ℚ) : List AccentPhrase → List AccentPhrase
  | cur :: nxt :: out => atBorder pauseLen cur nxt :: atBorders pauseLen (nxt :: out)
  | out => out

def applyNyPauseFix (phrases : List AccentPhrase) (pauseLen : ℚ) : Except SpeechError (List AccentPhrase) :=
  if 0 < pauseLen ∧ pauseLen ≤ 1 then .ok (atBorders pauseLen (phrases.flatMap (splitPhrase pauseLen)))
  else .error ⟨"VOICEVOX_NY_PAUSE_LEN は 0〜1 の範囲です: ", pauseLen⟩

/-! ## A complete fix -/

def Accented (moras : List Mora) (accent : ℤ) : Prop := moras ≠ [] ∧ 1 ≤ accent ∧ accent ≤ moras.length

/-- The moras and, on the right, the pauses, in the order in which they are spoken. -/
def tape (phrases : List AccentPhrase) : List (Mora ⊕ Mora) :=
  phrases.flatMap fun p => p.moras.map .inl ++ (p.pauseMora.map .inr).toList

/-- No pause is missing between two phrases. -/
def Bordered (p q : AccentPhrase) : Prop :=
  p.pauseMora = none → ∀ a ∈ p.moras.getLast?, ∀ b ∈ q.moras.head?, isINy a b = false

structure Complete (phrases out : List AccentPhrase) : Prop where
  moras : out.flatMap (·.moras) = phrases.flatMap (·.moras)
  pauses : (tape phrases).Sublist (tape out)
  accented : ∀ p ∈ out, Accented p.moras p.accent
  within : ∀ p ∈ out, p.moras.IsChain fun a b => isINy a b = false
  across : out.IsChain Bordered

/-- How often `ny` follows `i`. -/
def countINy : List Mora → ℕ
  | a :: b :: moras => (if isINy a b then 1 else 0) + countINy (b :: moras)
  | _ => 0

theorem isChain_iff : ∀ moras : List Mora, (moras.IsChain fun a b => isINy a b = false) ↔ countINy moras = 0
  | [] => by simp [countINy]
  | [_] => by simp [countINy]
  | a :: b :: moras => by
    rw [isChain_cons_cons, isChain_iff (b :: moras), countINy]
    cases isINy a b <;> simp

/-! ## Splitting -/

theorem firstINy_none : ∀ {moras : List Mora}, firstINy moras = none → countINy moras = 0
  | [], _ => rfl
  | [_], _ => rfl
  | a :: b :: moras, h => by
    rw [firstINy] at h
    split_ifs at h with hny
    rw [countINy, if_neg hny, firstINy_none (map_eq_none_iff.mp h)]

/-- Before the first place there is none, and after it one less. -/
theorem firstINy_some : ∀ {moras : List Mora} {idx : ℕ}, firstINy moras = some idx →
    0 < idx ∧ idx < moras.length ∧ countINy (moras.take idx) = 0 ∧ countINy (moras.drop idx) + 1 = countINy moras
  | a :: b :: moras, idx, h => by
    rw [firstINy] at h
    split_ifs at h with hny
    · obtain rfl := some.inj h
      exact ⟨Nat.one_pos, by simp, rfl, by rw [countINy, if_pos hny, Nat.add_comm]; rfl⟩
    · obtain ⟨i, hi, rfl⟩ := map_eq_some_iff.mp h
      obtain ⟨hpos, hlt, htake, hdrop⟩ := firstINy_some hi
      refine ⟨Nat.succ_pos i, Nat.succ_lt_succ hlt, ?_, ?_⟩
      · obtain ⟨j, rfl⟩ := Nat.exists_eq_add_of_lt hpos
        simp only [Nat.zero_add, take_succ_cons] at htake ⊢
        rw [countINy, if_neg hny, htake]
      · rw [countINy, if_neg hny, drop_succ_cons, hdrop, Nat.zero_add]

variable {pauseLen : ℚ} {phrase : AccentPhrase} {phrases : List AccentPhrase}

theorem tape_cons (p : AccentPhrase) (ps : List AccentPhrase) :
    tape (p :: ps) = p.moras.map .inl ++ ((p.pauseMora.map .inr).toList ++ tape ps) := by
  rw [tape, flatMap_cons, append_assoc]
  rfl

theorem splitPhrase_moras : (splitPhrase pauseLen phrase).flatMap (·.moras) = phrase.moras := by
  unfold splitPhrase
  split <;> simp

theorem splitPhrase_tape : (tape [phrase]).Sublist (tape (splitPhrase pauseLen phrase)) := by
  unfold splitPhrase
  split
  · exact Sublist.refl _
  · next idx _ =>
    simp only [tape_cons]
    conv_lhs => rw [← take_append_drop idx phrase.moras, map_append, append_assoc]
    exact (Sublist.refl _).append (sublist_append_right _ _)

theorem splitPhrase_accented (h : Accented phrase.moras phrase.accent) :
    ∀ p ∈ splitPhrase pauseLen phrase, Accented p.moras p.accent := by
  unfold splitPhrase
  split
  · simpa using h
  · next idx hidx =>
    obtain ⟨hpos, hlt, -, -⟩ := firstINy_some hidx
    obtain ⟨hne, hone, hle⟩ := h
    simp only [forall_mem_cons, not_mem_nil, false_imp_iff, implies_true, and_true, Accented, length_take,
      length_drop, ← length_pos_iff]
    omega

theorem splitPhrase_within :
    (∀ p ∈ splitPhrase pauseLen phrase, countINy p.moras = 0) ↔ countINy phrase.moras ≤ 1 := by
  unfold splitPhrase
  split
  · next hnone => simp [firstINy_none hnone]
  · next idx hidx =>
    obtain ⟨-, -, htake, hdrop⟩ := firstINy_some hidx
    simp only [forall_mem_cons, not_mem_nil, false_imp_iff, implies_true, and_true, htake, true_and]
    omega

/-! ## Borders -/

/-- Only pauses are new. -/
theorem atBorder_same (pauseLen : ℚ) (cur nxt : AccentPhrase) :
    (atBorder pauseLen cur nxt).moras = cur.moras ∧ (atBorder pauseLen cur nxt).accent = cur.accent ∧
      ((cur.pauseMora.map Sum.inr).toList : List (Mora ⊕ Mora)).Sublist
        ((atBorder pauseLen cur nxt).pauseMora.map Sum.inr).toList := by
  unfold atBorder
  split
  · split_ifs with h
    · rw [h.1]
      exact ⟨rfl, rfl, nil_sublist _⟩
    · exact ⟨rfl, rfl, Sublist.refl _⟩
  · exact ⟨rfl, rfl, Sublist.refl _⟩

theorem atBorder_bordered (cur nxt : AccentPhrase) {q : AccentPhrase} (hq : q.moras = nxt.moras) :
    Bordered (atBorder pauseLen cur nxt) q := by
  intro hnone a ha b hb
  rw [(atBorder_same pauseLen cur nxt).1] at ha
  rw [hq] at hb
  simp only [atBorder, mem_def.mp ha, mem_def.mp hb] at hnone
  split_ifs at hnone with hcond
  exact Bool.eq_false_iff.mpr fun hny => hcond ⟨hnone, hny⟩

theorem atBorders_same (pauseLen : ℚ) : ∀ phrases : List AccentPhrase,
    (atBorders pauseLen phrases).map (fun p => (p.moras, p.accent)) = phrases.map fun p => (p.moras, p.accent)
  | [] => rfl
  | [_] => rfl
  | cur :: nxt :: out => by
    rw [atBorders, map_cons, map_cons, atBorders_same pauseLen (nxt :: out),
      (atBorder_same pauseLen cur nxt).1, (atBorder_same pauseLen cur nxt).2.1]

theorem forall_atBorders {P : List Mora → ℤ → Prop} :
    (∀ p ∈ atBorders pauseLen phrases, P p.moras p.accent) ↔ ∀ p ∈ phrases, P p.moras p.accent := by
  have h := atBorders_same pauseLen phrases
  have hall : ∀ ps : List AccentPhrase,
      (∀ x ∈ ps.map fun p => (p.moras, p.accent), P x.1 x.2) ↔ ∀ p ∈ ps, P p.moras p.accent := fun _ => forall_mem_map
  rw [← hall, h, hall]

theorem atBorders_tape : ∀ phrases : List AccentPhrase, (tape phrases).Sublist (tape (atBorders pauseLen phrases))
  | [] => Sublist.refl _
  | [_] => Sublist.refl _
  | cur :: nxt :: out => by
    obtain ⟨hmoras, -, hpause⟩ := atBorder_same pauseLen cur nxt
    rw [atBorders, tape_cons, tape_cons (atBorder pauseLen cur nxt), hmoras]
    exact (Sublist.refl _).append (hpause.append (atBorders_tape (nxt :: out)))

theorem atBorders_across : ∀ phrases : List AccentPhrase, (atBorders pauseLen phrases).IsChain Bordered
  | [] => .nil
  | [_] => .singleton _
  | [cur, nxt] => by
    simpa [atBorders] using atBorder_bordered cur nxt rfl
  | cur :: nxt :: p :: out => by
    have hrest := atBorders_across (nxt :: p :: out)
    rw [atBorders] at hrest ⊢
    rw [atBorders, isChain_cons_cons]
    exact ⟨atBorder_bordered cur nxt (atBorder_same pauseLen nxt p).1, hrest⟩

/-! ## The fix is complete -/

theorem flatMap_tape : ∀ phrases : List AccentPhrase, (tape phrases).Sublist (tape (phrases.flatMap (splitPhrase pauseLen)))
  | [] => Sublist.refl _
  | p :: ps => by
    have happ : ∀ l l' : List AccentPhrase, tape (l ++ l') = tape l ++ tape l' := fun _ _ => flatMap_append
    rw [flatMap_cons, happ, ← singleton_append, happ]
    exact splitPhrase_tape.append (flatMap_tape ps)

theorem applyNyPauseFix_ok (hlen : 0 < pauseLen ∧ pauseLen ≤ 1) :
    applyNyPauseFix phrases pauseLen = .ok (atBorders pauseLen (phrases.flatMap (splitPhrase pauseLen))) := if_pos hlen

/-- The fix is complete exactly when no phrase has two places for it. -/
theorem pause_fix_complete_iff (hphrases : ∀ p ∈ phrases, Accented p.moras p.accent) (hlen : 0 < pauseLen ∧ pauseLen ≤ 1) :
    (∃ out, applyNyPauseFix phrases pauseLen = .ok out ∧ Complete phrases out) ↔ ∀ p ∈ phrases, countINy p.moras ≤ 1 := by
  have hwithin : (∀ p ∈ atBorders pauseLen (phrases.flatMap (splitPhrase pauseLen)),
      p.moras.IsChain fun a b => isINy a b = false) ↔ ∀ p ∈ phrases, countINy p.moras ≤ 1 := by
    simp only [isChain_iff]
    rw [forall_atBorders (P := fun moras _ => countINy moras = 0), forall_mem_flatMap]
    exact forall₂_congr fun p _ => splitPhrase_within
  rw [applyNyPauseFix_ok hlen]
  constructor
  · rintro ⟨out, hout, h⟩
    cases hout
    exact hwithin.mp h.within
  · intro h
    refine ⟨_, rfl, ?_, (flatMap_tape phrases).trans (atBorders_tape _), ?_, hwithin.mpr h, atBorders_across _⟩
    · have hmoras := congrArg (fun l => l.flatMap Prod.fst) (atBorders_same pauseLen (phrases.flatMap (splitPhrase pauseLen)))
      simp only [flatMap_map, flatMap_assoc, splitPhrase_moras] at hmoras
      exact hmoras
    · rw [forall_atBorders, forall_mem_flatMap]
      exact fun p hp => splitPhrase_accented (hphrases p hp)

def iMora : Mora := ⟨"イ", none, none, some "i", 1 / 10, 5⟩

def nyuMora : Mora := ⟨"ニュ", some "ny", some (1 / 10), some "u", 1 / 10, 5⟩

theorem pause_fix_once : (∃ out, applyNyPauseFix [⟨[iMora, nyuMora], 1, none, false⟩] 1 = .ok out ∧
      Complete [⟨[iMora, nyuMora], 1, none, false⟩] out) ↔
    ∀ p ∈ [(⟨[iMora, nyuMora], 1, none, false⟩ : AccentPhrase)], countINy p.moras ≤ 1 :=
  pause_fix_complete_iff (by simp [Accented]) ⟨one_pos, le_rfl⟩

/-- The second place of one phrase is left without a pause. -/
theorem pause_fix_incomplete : Accented [iMora, nyuMora, iMora, nyuMora] 1 ∧
    ¬ ∃ out, applyNyPauseFix [⟨[iMora, nyuMora, iMora, nyuMora], 1, none, false⟩] 1 = .ok out ∧
      Complete [⟨[iMora, nyuMora, iMora, nyuMora], 1, none, false⟩] out := by
  refine ⟨by simp [Accented], ?_⟩
  rintro ⟨out, hout, h⟩
  rw [applyNyPauseFix_ok ⟨one_pos, le_rfl⟩, Except.ok.injEq] at hout
  have hwithin := h.within
  rw [← hout] at hwithin
  revert hwithin
  decide +kernel

end Docich.Speech
