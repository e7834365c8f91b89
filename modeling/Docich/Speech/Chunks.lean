import Docich.Overlay.Queue
import Docich.Wire.Blanks

/-!
# Chunks of speech

`split_chunks` cuts a text at its lines, its sentences and, where a sentence is too long, its clauses, and joins what fits.
Apart from marks and white space nothing is lost, and only a clause can be too long (`chunks_conserve`).
-/

namespace Docich.Speech

open List

open Overlay (isSpace)
open Wire.Blanks (strip strip_spec)

abbrev Text : Type := List Char

/-! ## The chunks -/

def candidate (buf part : Text) : Text := buf ++ (if buf ≠ [] then ['、'] else []) ++ part

/-- One turn of the loop over the clauses of a sentence: the chunks and `buf`. -/
def gather (maxChars : ℕ) (s : List Text × Text) (part : Text) : List Text × Text :=
  if maxChars < (candidate s.2 part).length ∧ s.2 ≠ [] then (s.1 ++ [s.2], part) else (s.1, candidate s.2 part)

/-- `if buf: chunks.append(buf)` -/
def flush (s : List Text × Text) : List Text := if s.2 ≠ [] then s.1 ++ [s.2] else s.1

def splitSentence (maxChars : ℕ) (chunks : List Text) (sentence : Text) : List Text :=
  flush ((sentence.splitOn '、').foldl (gather maxChars) (chunks, []))

def place (maxChars : ℕ) (chunks : List Text) (sentence : Text) : List Text :=
  if maxChars < sentence.length then splitSentence maxChars chunks sentence else chunks ++ [sentence]

def join (maxChars : ℕ) (chunks : List Text) (sentence : Text) : List Text :=
  match chunks.getLast? with
  | some last =>
    if last.length + sentence.length ≤ maxChars then chunks.dropLast ++ [last ++ sentence] else place maxChars chunks sentence
  | none => place maxChars chunks sentence

/-- One turn of the loop over the sentences of a line. -/
def addSentence (maxChars : ℕ) (chunks : List Text) (sentence : Text) : List Text :=
  if strip isSpace sentence = [] then chunks else join maxChars chunks (strip isSpace sentence ++ ['。'])

def addLine (maxChars : ℕ) (chunks : List Text) (line : Text) : List Text :=
  (line.splitOn '。').foldl (addSentence maxChars) chunks

def splitChunks (text : Text) (maxChars : ℕ) : List Text := (text.splitOn '\n').foldl (addLine maxChars) []

/-! ## Parts -/

theorem splitOn_parts (c : Char) (text : Text) :
    (text.splitOn c).flatten = text.filter (· ≠ c) ∧ ∀ part ∈ text.splitOn c, c ∉ part := by
  induction text with
  | nil => simp
  | cons d text ih =>
    rw [splitOn_cons_eq_if_modifyHead]
    obtain ⟨part, parts, hparts⟩ := exists_cons_of_ne_nil (splitOn_ne_nil c text)
    by_cases hd : d = c
    · simpa [hd] using ih
    · have hcd : c ≠ d := fun h => hd h.symm
      simp_all

/-! ## What is kept -/

/-- Neither a mark nor white space. -/
def spoken (c : Char) : Bool := !(c = '。' || c = '、' || isSpace c)

def Fits (maxChars : ℕ) (chunk : Text) : Prop := chunk.length ≤ maxChars ∨ '、' ∉ chunk

/-- The chunks of a text: they say what it says, none is empty, and those that are too long are single clauses. -/
structure Kept (maxChars : ℕ) (text : Text) (chunks : List Text) : Prop where
  same : chunks.flatten.filter spoken = text.filter spoken
  full : ∀ chunk ∈ chunks, chunk ≠ []
  fits : ∀ chunk ∈ chunks, Fits maxChars chunk

variable {maxChars : ℕ} {text t : Text} {chunks : List Text}

theorem spoken_splitOn {c : Char} (hc : spoken c = false) : (text.splitOn c).flatten.filter spoken = text.filter spoken := by
  rw [(splitOn_parts c text).1, filter_filter]
  refine filter_congr fun d _ => ?_
  by_cases hd : d = c
  · rw [hd, hc, Bool.false_and]
  · simp [hd]

theorem spoken_strip : (strip isSpace text).filter spoken = text.filter spoken := by
  obtain ⟨a, e, ha, he, htext⟩ := strip_spec isSpace text
  have hsilent : ∀ {s : Text}, Wire.Blanks.AllBlank isSpace s → s.filter spoken = [] := by
    intro s hs
    refine filter_eq_nil_iff.mpr fun c hc => ?_
    simp [spoken, hs c hc]
  conv_rhs => rw [htext, filter_append, filter_append, hsilent ha, hsilent he, append_nil, nil_append]

namespace Kept

theorem congr (h : Kept maxChars text chunks) (ht : text.filter spoken = t.filter spoken) : Kept maxChars t chunks :=
  ⟨h.same.trans ht, h.full, h.fits⟩

theorem add (h : Kept maxChars text chunks) (hne : t ≠ []) (hfits : Fits maxChars t) :
    Kept maxChars (text ++ t) (chunks ++ [t]) where
  same := by rw [flatten_append, flatten_singleton, filter_append, filter_append, h.same]
  full chunk hc := (mem_append.mp hc).elim (h.full chunk) fun hc => mem_singleton.mp hc ▸ hne
  fits chunk hc := (mem_append.mp hc).elim (h.fits chunk) fun hc => mem_singleton.mp hc ▸ hfits

/-- What holds of one turn of a loop holds of the loop. -/
theorem foldl {f : List Text → Text → List Text}
    (hf : ∀ {text chunks} t, Kept maxChars text chunks → Kept maxChars (text ++ t) (f chunks t)) :
    ∀ (parts : List Text) {text chunks}, Kept maxChars text chunks → Kept maxChars (text ++ parts.flatten) (parts.foldl f chunks)
  | [], text, _, h => by simpa using h
  | t :: parts, text, _, h => by
    rw [flatten_cons, ← append_assoc]
    exact foldl hf parts (hf t h)

end Kept

/-- Amid the clauses of a sentence: what is not yet in a chunk is in `buf`, which fits or is one clause. -/
def Gathered (maxChars : ℕ) (text : Text) (s : List Text × Text) : Prop :=
  Fits maxChars s.2 ∧ ∃ t, Kept maxChars t s.1 ∧ (t ++ s.2).filter spoken = text.filter spoken

theorem spoken_candidate (buf part : Text) : (candidate buf part).filter spoken = (buf ++ part).filter spoken := by
  unfold candidate
  split_ifs
  · simp only [filter_append]
    exact congrArg (· ++ _) (append_nil _)
  · rw [append_nil]

theorem gather_gathered {s : List Text × Text} (h : Gathered maxChars text s) (ht : '、' ∉ t) :
    Gathered maxChars (text ++ t) (gather maxChars s t) := by
  obtain ⟨hfits, done, hkept, hsame⟩ := h
  have hall : (done ++ (s.2 ++ t)).filter spoken = (text ++ t).filter spoken := by
    rw [← append_assoc, filter_append, hsame, ← filter_append]
  unfold gather
  split_ifs with hlong
  · exact ⟨.inr ht, done ++ s.2, hkept.add hlong.2 hfits, by rw [append_assoc, hall]⟩
  · refine ⟨?_, done, hkept, by rw [filter_append, spoken_candidate, ← filter_append, hall]⟩
    by_cases hbuf : s.2 = []
    · right
      simpa [candidate, hbuf] using ht
    · exact .inl (Nat.le_of_not_lt fun hlt => hlong ⟨hlt, hbuf⟩)

theorem gathered_foldl : ∀ (parts : List Text), (∀ part ∈ parts, '、' ∉ part) → ∀ {text s}, Gathered maxChars text s →
    Gathered maxChars (text ++ parts.flatten) (parts.foldl (gather maxChars) s)
  | [], _, text, _, h => by simpa using h
  | t :: parts, hparts, text, _, h => by
    rw [flatten_cons, ← append_assoc]
    exact gathered_foldl parts (fun part hp => hparts part (mem_cons_of_mem _ hp))
      (gather_gathered h (hparts t mem_cons_self))

variable (h : Kept maxChars text chunks)

include h

theorem splitSentence_kept : Kept maxChars (text ++ t) (splitSentence maxChars chunks t) := by
  have hstart : Gathered maxChars text (chunks, []) := ⟨.inl (Nat.zero_le _), text, h, by rw [append_nil]⟩
  obtain ⟨hfits, done, hkept, hsame⟩ := gathered_foldl _ (splitOn_parts '、' t).2 hstart
  have hend : (text ++ (t.splitOn '、').flatten).filter spoken = (text ++ t).filter spoken := by
    rw [filter_append, spoken_splitOn rfl, ← filter_append]
  unfold splitSentence flush
  split_ifs with hbuf
  · exact (hkept.add hbuf hfits).congr (hsame.trans hend)
  · rw [not_not.mp hbuf, append_nil] at hsame
    exact hkept.congr (hsame.trans hend)

theorem place_kept (hne : t ≠ []) : Kept maxChars (text ++ t) (place maxChars chunks t) := by
  unfold place
  split_ifs with hlong
  · exact splitSentence_kept h
  · exact h.add hne (.inl (Nat.le_of_not_lt hlong))

theorem join_kept (hne : t ≠ []) : Kept maxChars (text ++ t) (join maxChars chunks t) := by
  unfold join
  split
  · next last hlast =>
    obtain ⟨init, rfl⟩ := List.getLast?_eq_some_iff.mp hlast
    split_ifs with hle
    · rw [dropLast_concat]
      refine ⟨?_, fun chunk hc => ?_, fun chunk hc => ?_⟩
      · rw [filter_append, ← h.same, ← filter_append]
        simp
      · rcases mem_append.mp hc with hc | hc
        · exact h.full chunk (mem_append_left _ hc)
        · rw [mem_singleton.mp hc]
          exact append_ne_nil_of_right_ne_nil _ hne
      · rcases mem_append.mp hc with hc | hc
        · exact h.fits chunk (mem_append_left _ hc)
        · rw [mem_singleton.mp hc]
          exact .inl (by rwa [length_append])
    · exact place_kept h hne
  · exact place_kept h hne

theorem addSentence_kept : Kept maxChars (text ++ t) (addSentence maxChars chunks t) := by
  have hstrip : (text ++ strip isSpace t).filter spoken = (text ++ t).filter spoken := by
    rw [filter_append, spoken_strip, ← filter_append]
  unfold addSentence
  split_ifs with hempty
  · rw [hempty, append_nil] at hstrip
    exact h.congr hstrip
  · refine (join_kept h (append_ne_nil_of_right_ne_nil _ (cons_ne_nil _ _))).congr ?_
    rw [← append_assoc, filter_append, hstrip]
    exact append_nil _

theorem addLine_kept : Kept maxChars (text ++ t) (addLine maxChars chunks t) := by
  refine (Kept.foldl (fun _ => addSentence_kept) _ h).congr ?_
  rw [filter_append, spoken_splitOn rfl, ← filter_append]

omit h

/-- The chunks say what the text says, none is empty, and one that is too long has no `、` at all. -/
theorem chunks_conserve (text : Text) (maxChars : ℕ) :
    (splitChunks text maxChars).flatten.filter spoken = text.filter spoken ∧
      (∀ chunk ∈ splitChunks text maxChars, chunk ≠ []) ∧
      ∀ chunk ∈ splitChunks text maxChars, chunk.length ≤ maxChars ∨ '、' ∉ chunk := by
  have hstart : Kept maxChars [] [] := ⟨rfl, nofun, nofun⟩
  have h := Kept.foldl (fun _ => addLine_kept) (text.splitOn '\n') hstart
  refine ⟨h.same.trans ?_, h.full, h.fits⟩
  rw [nil_append, spoken_splitOn rfl]

end Docich.Speech
