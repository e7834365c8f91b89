import Docich.Trpg.Session

/-!
# Every vote counts once

- `windowMessages`: the messages of the lines that begin after the opening and end before the closing of a window;
- `Reading`: the reader stands after a line, or in one that gives no message;
- `readFrom_spec`: what one read does;
- `inv_tick`, `tick_closing`: a call; `votes_counted`: every run.
-/

namespace Docich.Trpg

open Wire.Lines List

variable {r : Reader} {inode : ℕ} {w w' : World} {t : Tick}

def bytesOf (file : Option File) : List ℕ := file.elim [] File.bytes

/-- The messages of these lines, of those that begin at a place or after it. -/
def messagesFrom (r : Reader) (opened : ℕ) (lines : List (List ℕ)) : List Message :=
  (((placed 0 lines).filter fun line => opened ≤ line.1).map Prod.snd).filterMap (messageOf r)

def windowMessages (r : Reader) (bytes : List ℕ) (opened closing : ℕ) : List Message :=
  messagesFrom r opened (complete newline (bytes.take closing))

/-! ## Reading -/

variable {line begun : List ℕ} {start place : ℕ} {s s' state : State} {file : Option File}
    {due drained : Bool} {more : Option (List ℕ)} {reason : StopReason} {ticks : List Tick}
    {closing : Cursor}

theorem messageOf_long (h : READ_BYTES ≤ line.length) : messageOf r line = none := by
  have hlen := Wire.Utf8.length_decodeReplace line
  have hread : READ_BYTES = 65536 := rfl
  unfold messageOf parse_chat
  rw [guard, if_neg (by omega)]
  rfl

variable {opened : ℕ} {lines : List (List ℕ)} {applied : List Message} {bytes : List ℕ} {cursor : Cursor}

theorem placed_all (h : opened ≤ start) (lines : List (List ℕ)) :
    ((placed start lines).filter fun line => decide (opened ≤ line.1)).map Prod.snd = lines := by
  induction lines generalizing start with
  | nil => rfl
  | cons line lines ih =>
    rw [placed, filter_cons_of_pos (by simpa using h), map_cons, ih (by omega)]

theorem messagesFrom_append (opened : ℕ) (lines lines' : List (List ℕ)) : messagesFrom r opened (lines ++ lines') =
    messagesFrom r opened lines ++ (((placed (join newline lines).length lines').filter
      fun line => decide (opened ≤ line.1)).map Prod.snd).filterMap (messageOf r) := by
  unfold messagesFrom
  rw [placed_append, Nat.zero_add, filter_append, map_append, filterMap_append]

/-- Lines that begin in the window. -/
theorem messagesFrom_append_after (h : opened ≤ (join newline lines).length) (lines' : List (List ℕ)) :
    messagesFrom r opened (lines ++ lines') = messagesFrom r opened lines ++ lines'.filterMap (messageOf r) := by
  rw [messagesFrom_append, placed_all h]

/-- A line that begins before the window, or is no message. -/
theorem messagesFrom_append_skipped (h : (join newline lines).length < opened ∨ READ_BYTES ≤ line.length) :
    messagesFrom r opened (lines ++ [line]) = messagesFrom r opened lines := by
  rw [messagesFrom_append, placed, placed]
  by_cases hopened : opened ≤ (join newline lines).length
  · have hlong : READ_BYTES ≤ line.length := by omega
    simp [messageOf_long hlong]
  · simp [hopened]

/-- The bytes before a place are these lines and the beginning of another one, and the messages of these lines were applied. -/
structure Upto (r : Reader) (bytes : List ℕ) (opened place : ℕ) (applied : List Message) (lines : List (List ℕ))
    (begun : List ℕ) : Prop where
  split : bytes.take place = join newline lines ++ begun
  whole : Whole newline lines
  noEnd : newline ∉ begun
  applied : applied = messagesFrom r opened lines

theorem Upto.messages (h : Upto r bytes opened place applied lines begun) : applied = windowMessages r bytes opened place := by
  rw [windowMessages, h.split, complete_join h.whole h.noEnd]
  exact h.applied

theorem Upto.length (h : Upto r bytes opened place applied lines begun) (hplace : place ≤ bytes.length) :
    (join newline lines).length + begun.length = place := by
  rw [← length_append, ← h.split, length_take, min_eq_left hplace]

/-- The reader stands after a line, or in one that began before the window or is too long. -/
structure Reading (r : Reader) (bytes : List ℕ) (opened : ℕ) (cursor : Cursor) (applied : List Message) : Prop where
  after : opened ≤ cursor.offset
  within : cursor.offset ≤ bytes.length
  upto : ∃ lines begun, Upto r bytes opened cursor.offset applied lines begun ∧
    if cursor.discard then (join newline lines).length < opened ∨ READ_BYTES ≤ begun.length else begun = []

variable (h : Reading r bytes opened cursor applied)

include h

theorem Reading.between (hdiscard : ¬ cursor.discard = true) :
    ∃ lines, Upto r bytes opened cursor.offset applied lines [] := by
  obtain ⟨lines, begun, hupto, hkind⟩ := h.upto
  rw [if_neg hdiscard] at hkind
  exact ⟨lines, hkind ▸ hupto⟩

theorem Reading.grow (more : List ℕ) : Reading r (bytes ++ more) opened cursor applied := by
  obtain ⟨lines, begun, hupto, hdiscard⟩ := h.upto
  have hwithin : cursor.offset ≤ (bytes ++ more).length := by
    rw [length_append]
    exact h.within.trans (Nat.le_add_right _ _)
  refine ⟨h.after, hwithin, lines, begun, ⟨?_, hupto.whole, hupto.noEnd, hupto.applied⟩, hdiscard⟩
  rw [take_append_of_le_length h.within]
  exact hupto.split

omit h

theorem take_add_drop (bytes : List ℕ) (place n : ℕ) : bytes.take (place + n) = bytes.take place ++ (bytes.drop place).take n :=
  take_add

/-- What a read does: it goes on from where it was, at most to the limit. -/
structure ReadOk (r : Reader) (bytes : List ℕ) (opened : ℕ) (cursor : Cursor) (applied : List Message) (limit : ℕ)
    (closing : Bool) (c : Consumed) : Prop where
  inode : c.cursor.inode = cursor.inode
  onward : cursor.offset ≤ c.cursor.offset
  atMost : c.cursor.offset ≤ limit
  drained : c.drained = decide (limit ≤ c.cursor.offset)
  messages : applied ++ c.messages = windowMessages r bytes opened c.cursor.offset
  reading : Reading r bytes opened c.cursor (applied ++ c.messages) ∨ closing = true ∧ limit ≤ c.cursor.offset
  progress : closing = true → limit ≤ c.cursor.offset ∨ cursor.offset < c.cursor.offset

section Read

variable {bytes : List ℕ} {opened limit : ℕ} {cursor : Cursor} {applied : List Message}

theorem length_raw (hlimit : cursor.offset ≤ limit) (hbytes : limit ≤ bytes.length) :
    ((bytes.drop cursor.offset).take (min READ_BYTES (limit - cursor.offset))).length = min READ_BYTES (limit - cursor.offset) := by
  rw [length_take, length_drop]
  omega

/-- A read in a line that is dropped, where the line goes on. -/
theorem readOk_dropping {raw : List ℕ} {state : State} {closing : Bool} (h : Reading r bytes opened cursor applied)
    (hdiscard : cursor.discard = true) (hraw : raw = (bytes.drop cursor.offset).take raw.length)
    (hlimit : cursor.offset + raw.length ≤ limit) (hbytes : limit ≤ bytes.length) (hend : newline ∉ raw)
    (hprogress : raw = [] → limit ≤ cursor.offset) :
    ReadOk r bytes opened cursor applied limit closing
      ⟨{ cursor with offset := cursor.offset + raw.length }, state, [], limit ≤ cursor.offset + raw.length⟩ := by
  obtain ⟨lines, begun, hupto, hkind⟩ := h.upto
  rw [if_pos hdiscard] at hkind
  have hupto' : Upto r bytes opened (cursor.offset + raw.length) applied lines (begun ++ raw) := by
    refine ⟨?_, hupto.whole, ?_, hupto.applied⟩
    · rw [take_add_drop, hupto.split, ← hraw, append_assoc]
    · rw [mem_append, not_or]
      exact ⟨hupto.noEnd, hend⟩
  have hreading : Reading r bytes opened { cursor with offset := cursor.offset + raw.length } applied := by
    refine ⟨h.after.trans (Nat.le_add_right _ _), hlimit.trans hbytes, lines, begun ++ raw, hupto', ?_⟩
    rw [if_pos hdiscard, length_append]
    omega
  refine ⟨rfl, Nat.le_add_right _ _, hlimit, rfl, ?_, .inl ?_, fun _ => ?_⟩
  · rw [append_nil]
    exact hupto'.messages
  · rwa [append_nil]
  · by_cases hnil : raw = []
    · exact .inl ((hprogress hnil).trans (Nat.le_add_right _ _))
    · have := length_pos_of_ne_nil hnil
      exact .inr (by dsimp only; omega)

/-- A read in which the line that is dropped ends. -/
theorem readOk_dropped {raw line raw' : List ℕ} {state : State} {closing : Bool} (h : Reading r bytes opened cursor applied)
    (hdiscard : cursor.discard = true) (hraw : raw = (bytes.drop cursor.offset).take raw.length)
    (hlimit : cursor.offset + raw.length ≤ limit) (hbytes : limit ≤ bytes.length) (hcut : raw = line ++ newline :: raw')
    (hline : newline ∉ line) :
    ReadOk r bytes opened cursor applied limit closing
      ⟨{ cursor with offset := cursor.offset + (line.length + 1), discard := false }, state, [],
        limit ≤ cursor.offset + (line.length + 1)⟩ := by
  obtain ⟨lines, begun, hupto, hkind⟩ := h.upto
  rw [if_pos hdiscard] at hkind
  have hlen : line.length + 1 ≤ raw.length := by
    rw [hcut, length_append, length_cons]
    omega
  have htaken : (bytes.drop cursor.offset).take (line.length + 1) = line ++ [newline] := by
    have : (bytes.drop cursor.offset).take (line.length + 1) = raw.take (line.length + 1) := by
      rw [hraw, take_take, min_eq_left hlen]
    rw [this, hcut, append_cons, take_left']
    rw [length_append, length_singleton]
  have hupto' : Upto r bytes opened (cursor.offset + (line.length + 1)) applied (lines ++ [begun ++ line]) [] := by
    refine ⟨?_, ?_, not_mem_nil, ?_⟩
    · rw [take_add_drop, hupto.split, htaken, join_append, append_nil]
      simp [join]
    · intro l hl
      rcases mem_append.mp hl with hl | hl
      · exact hupto.whole l hl
      · rw [mem_singleton.mp hl, mem_append, not_or]
        exact ⟨hupto.noEnd, hline⟩
    · rw [messagesFrom_append_skipped, ← hupto.applied]
      rw [length_append]
      omega
  refine ⟨rfl, Nat.le_add_right _ _, by dsimp only; omega, rfl, ?_, .inl ?_, fun _ => .inr (by dsimp only; omega)⟩
  · rw [append_nil]
    exact hupto'.messages
  · rw [append_nil]
    refine ⟨h.after.trans (Nat.le_add_right _ _), by dsimp only; omega, lines ++ [begun ++ line], [], hupto', ?_⟩
    rw [if_neg Bool.false_ne_true]

/-- A read of complete lines, from the beginning of one. -/
theorem upto_lines {lines lines' : List (List ℕ)} {begun : List ℕ} {place : ℕ}
    (hupto : Upto r bytes opened cursor.offset applied lines []) (h : Reading r bytes opened cursor applied)
    (hplace : (bytes.drop cursor.offset).take place = join newline lines' ++ begun) (hwhole : Whole newline lines')
    (hend : newline ∉ begun) :
    Upto r bytes opened (cursor.offset + place) (applied ++ lines'.filterMap (messageOf r)) (lines ++ lines') begun := by
  have hlen := hupto.length h.within
  have hafter := h.after
  rw [length_nil] at hlen
  refine ⟨?_, ?_, hend, ?_⟩
  · rw [take_add_drop, hupto.split, hplace, append_nil, join_append, append_assoc]
  · intro l hl
    rcases mem_append.mp hl with hl | hl
    · exact hupto.whole l hl
    · exact hwhole l hl
  · rw [messagesFrom_append_after (by omega), ← hupto.applied]

theorem join_pos {lines : List (List ℕ)} (h : lines ≠ []) : 0 < (join newline lines).length := by
  obtain ⟨line, lines, rfl⟩ := exists_cons_of_ne_nil h
  simp only [join, flatMap_cons, length_append, length_singleton]
  omega

theorem readFrom_spec (h : Reading r bytes opened cursor applied) (hlimit : cursor.offset ≤ limit) (hbytes : limit ≤ bytes.length)
    (state : State) (closing : Bool) : ReadOk r bytes opened cursor applied limit closing (readFrom r bytes cursor state limit closing) := by
  unfold readFrom
  have hlength := length_raw hlimit hbytes
  have htake : (bytes.drop cursor.offset).take (min READ_BYTES (limit - cursor.offset)) =
      (bytes.drop cursor.offset).take ((bytes.drop cursor.offset).take (min READ_BYTES (limit - cursor.offset))).length := by
    rw [hlength]
  have hread : 0 < READ_BYTES := by decide
  generalize (bytes.drop cursor.offset).take (min READ_BYTES (limit - cursor.offset)) = raw at hlength htake ⊢
  have hend : cursor.offset + raw.length ≤ limit := by omega
  have hnil : raw = [] → limit ≤ cursor.offset := by
    rintro rfl
    rw [length_nil] at hlength
    omega
  dsimp only
  split_ifs with hdiscard hlong hclose
  · split
    · rename_i hfind
      exact readOk_dropping h hdiscard htake hend hbytes (List.idxOf?_eq_none_iff.mp hfind) hnil
    · rename_i i hfind
      obtain ⟨line, raw', hcut, rfl, hline⟩ := cut_at hfind
      exact readOk_dropped h hdiscard htake hend hbytes hcut hline
  · -- a line that is longer than a read
    obtain ⟨lines, hupto⟩ := h.between hdiscard
    have hnone : complete newline raw = [] := by
      rcases take_eq_nil_iff.mp hlong.1 with hmax | hnone
      · exact absurd hmax (by decide)
      · exact hnone
    have hsplit : join newline (complete newline raw) ++ rest newline raw = raw := join_split raw
    rw [hnone] at hsplit
    have hrest : rest newline raw = raw := hsplit
    have hnoEnd : newline ∉ raw := hrest ▸ sep_notMem_rest raw
    have hraw : (bytes.drop cursor.offset).take raw.length = join newline [] ++ raw := htake.symm
    have hupto' := upto_lines hupto h hraw (fun _ hline => absurd hline not_mem_nil) hnoEnd
    rw [filterMap_nil, append_nil] at hupto'
    refine ⟨rfl, Nat.le_add_right _ _, hend, rfl, ?_, .inl ?_, fun _ => .inr (by dsimp only; omega)⟩
    · rw [append_nil]
      exact hupto'.messages
    · rw [append_nil]
      refine ⟨h.after.trans (Nat.le_add_right _ _), hend.trans hbytes, lines ++ [], raw, hupto', ?_⟩
      exact .inr hlong.2.ge
  · -- the last read before the closing
    obtain ⟨lines, hupto⟩ := h.between hdiscard
    have hall : (complete newline raw).take MAX_LINES = complete newline raw := by
      rw [length_take] at hclose
      exact take_of_length_le (by omega)
    have hsplit : join newline (complete newline raw) ++ rest newline raw = raw := join_split raw
    have hupto' := upto_lines hupto h (htake.symm.trans hsplit.symm) (complete_whole raw) (sep_notMem_rest raw)
    rw [hclose.2.1] at hupto'
    rw [hall]
    exact ⟨rfl, hlimit, le_refl _, rfl, hupto'.messages, .inr ⟨hclose.1, le_refl _⟩, fun _ => .inl (le_refl _)⟩
  · obtain ⟨lines, hupto⟩ := h.between hdiscard
    have hwhole : Whole newline ((complete newline raw).take MAX_LINES) :=
      fun line hline => complete_whole raw line (take_subset _ _ hline)
    have hsplit : join newline (complete newline raw) ++ rest newline raw = raw := join_split raw
    rw [← take_append_drop MAX_LINES (complete newline raw), join_append, append_assoc] at hsplit
    have hle : (join newline ((complete newline raw).take MAX_LINES)).length ≤ raw.length := by
      conv_rhs => rw [← hsplit]
      rw [length_append]
      exact Nat.le_add_right _ _
    have hread : (bytes.drop cursor.offset).take (join newline ((complete newline raw).take MAX_LINES)).length =
        join newline ((complete newline raw).take MAX_LINES) ++ [] := by
      have : (bytes.drop cursor.offset).take (join newline ((complete newline raw).take MAX_LINES)).length =
          raw.take (join newline ((complete newline raw).take MAX_LINES)).length := by
        rw [htake, take_take, ← htake, min_eq_left hle]
      rw [this, append_nil]
      generalize join newline ((complete newline raw).take MAX_LINES) = taken at hsplit ⊢
      rw [← hsplit, take_left]
    have hupto' := upto_lines hupto h hread hwhole not_mem_nil
    refine ⟨rfl, Nat.le_add_right _ _, by dsimp only; omega, rfl, hupto'.messages, .inl ?_, fun hclosing => ?_⟩
    · refine ⟨h.after.trans (Nat.le_add_right _ _), by dsimp only; omega, _, [], hupto', ?_⟩
      rw [if_neg hdiscard]
    · -- a read that takes no line and does not close was a whole one
      by_cases hnone : (complete newline raw).take MAX_LINES = []
      · refine absurd ⟨hclosing, ?_, ?_⟩ hclose
        · have hshort : raw.length ≠ READ_BYTES := fun hfull => hlong ⟨hnone, hfull⟩
          omega
        · rw [hnone]
          decide
      · have hpos := join_pos hnone
        exact .inr (by dsimp only; omega)

end Read

/-! ## The state -/

/-- States in the same phase of the same scene of the same story, with the same window. -/
structure Same (s s' : State) : Prop where
  phase : s'.phase = s.phase
  scene : s'.scene_id = s.scene_id
  scenario : s'.scenario = s.scenario
  window : s'.vote_window_seconds = s.vote_window_seconds

theorem Same.refl (s : State) : Same s s := ⟨rfl, rfl, rfl, rfl⟩

theorem Same.trans {s'' : State} (h : Same s s') (h' : Same s' s'') : Same s s'' :=
  ⟨h'.phase.trans h.phase, h'.scene.trans h.scene, h'.scenario.trans h.scenario, h'.window.trans h.window⟩

theorem Same.delay (h : Same s s') : delayOf s' = delayOf s := by
  unfold delayOf
  rw [h.phase, h.scenario, h.window]

theorem record_vote_same {uid : MoveGate.Text} {choice : ℕ} (h : record_vote s uid choice = some s') : Same s s' := by
  simp only [record_vote, Option.bind_eq_bind, Option.bind_eq_some_iff] at h
  obtain ⟨-, -, scene, -, -, -, -, -, h⟩ := h
  cases h
  exact ⟨rfl, rfl, rfl, rfl⟩

theorem record_accusation_same {uid suspect trick : MoveGate.Text}
    (h : record_accusation s uid suspect trick = some s') : Same s s' := by
  simp only [record_accusation, Option.bind_eq_bind, Option.bind_eq_some_iff] at h
  obtain ⟨-, -, scenario, -, climax, -, -, -, -, -, -, -, h⟩ := h
  cases h
  exact ⟨rfl, rfl, rfl, rfl⟩

theorem getD_same {o : Option State} (h : ∀ s', o = some s' → Same s s') : Same s (o.getD s) := by
  cases o with
  | none => exact .refl s
  | some s' => exact h s' rfl

theorem observe_chat_same (u : Unicode) (s : State) (uid message : MoveGate.Text) : Same s (observe_chat u s uid message) := by
  unfold observe_chat
  split_ifs
  · exact .refl s
  · split
    · exact getD_same fun s' => record_vote_same
    · split
      · exact getD_same fun s' => record_accusation_same
      · exact .refl s

theorem foldl_observe_same (u : Unicode) (messages : List Message) (s : State) :
    Same s (messages.foldl (fun state m => observe_chat u state m.1 m.2) s) := by
  induction messages generalizing s with
  | nil => exact .refl s
  | cons m messages ih => exact (observe_chat_same u s m.1 m.2).trans (ih _)

theorem readFrom_same (bytes : List ℕ) (cursor : Cursor) (state : State) (limit : ℕ) (closing : Bool) :
    Same state (readFrom r bytes cursor state limit closing).state := by
  unfold readFrom
  dsimp only
  split_ifs
  · split
    · exact .refl state
    · exact .refl state
  · exact .refl state
  · exact foldl_observe_same _ _ state
  · exact foldl_observe_same _ _ state

theorem consume_same (file : Option File) (cursor : Cursor) (state : State) (through : Option Cursor) :
    Same state (consume r file cursor state through).state := by
  unfold consume
  split
  · exact .refl state
  · split_ifs
    · exact .refl state
    · split
      · exact readFrom_same ..
      · split_ifs
        · exact .refl state
        · exact readFrom_same ..
    · split
      · exact readFrom_same ..
      · split_ifs
        · exact .refl state
        · exact readFrom_same ..

/-! ## Calls -/

/-- A cursor on the file: a file that is there, or the beginning of one that is not. -/
structure Known (inode : ℕ) (cursor : Cursor) : Prop where
  some : ∀ i, cursor.inode = some i → i = inode
  none : cursor.inode = none → cursor.offset = 0 ∧ cursor.discard = false

structure OpenOk (r : Reader) (inode : ℕ) (w : World) : Prop where
  reading : Reading r (bytesOf w.file) w.opened.offset w.data.cursor w.applied
  cursor : Known inode w.data.cursor
  closing : ∀ c, w.data.closing = some c →
    Known inode c ∧ w.data.cursor.offset ≤ c.offset ∧ c.offset ≤ (bytesOf w.file).length
  due : ∀ c, w.data.closing = some c → ∀ delay, delayOf w.data.state = some delay → delay ≤ w.clock - w.data.phase_at

/-- What the reader does in an open window: it goes on reading, or it has read what came before the closing. -/
structure ConsumeOk (r : Reader) (inode : ℕ) (w : World) (c : Consumed) : Prop where
  cursor : Known inode c.cursor
  reading : Reading r (bytesOf w.file) w.opened.offset c.cursor (w.applied ++ c.messages) ∨
    w.data.closing.isSome ∧ c.drained = true
  closing : ∀ closing, w.data.closing = some closing → c.cursor.offset ≤ closing.offset ∧
    if c.drained then w.applied ++ c.messages = windowMessages r (bytesOf w.file) w.opened.offset closing.offset
    else w.data.cursor.offset < c.cursor.offset

include h in
theorem Reading.messages : applied = windowMessages r bytes opened cursor.offset := by
  obtain ⟨lines, begun, hupto, -⟩ := h.upto
  exact hupto.messages

/-- A reader that stays where it is, before a closing at which there was nothing. -/
theorem consumeOk_stay (h : OpenOk r inode w) (hcursor : Known inode cursor)
    (hoffset : cursor.offset = w.data.cursor.offset) (hdiscard : cursor.discard = w.data.cursor.discard)
    (hclosing : ∀ c, w.data.closing = some c → c.offset = 0) : ConsumeOk r inode w ⟨cursor, state, [], true⟩ := by
  have hreading : Reading r (bytesOf w.file) w.opened.offset cursor w.applied := by
    obtain ⟨hafter, hwithin, hupto⟩ := h.reading
    rw [← hoffset] at hafter hwithin hupto
    rw [← hdiscard] at hupto
    exact ⟨hafter, hwithin, hupto⟩
  refine ⟨hcursor, .inl (by rwa [append_nil]), fun closing hsome => ?_⟩
  obtain ⟨-, hle, -⟩ := h.closing closing hsome
  have hzero := hclosing closing hsome
  refine ⟨by dsimp only; omega, ?_⟩
  rw [if_pos rfl, append_nil, hzero, ← show cursor.offset = 0 by omega]
  exact hreading.messages

theorem consumeOk_read {f : File} {limit : ℕ} {closing : Bool} (h : OpenOk r inode w)
    (hfile : w.file = some f) (hcursor : cursor.inode = some inode) (hoffset : cursor.offset = w.data.cursor.offset)
    (hdiscard : cursor.discard = w.data.cursor.discard) (hlimit : cursor.offset ≤ limit) (hbytes : limit ≤ f.bytes.length)
    (hclosing : closing = w.data.closing.isSome) (hclose : ∀ c, w.data.closing = some c → limit = c.offset) :
    ConsumeOk r inode w (readFrom r f.bytes cursor state limit closing) := by
  have hfileBytes : bytesOf w.file = f.bytes := by rw [hfile]; rfl
  have hreading : Reading r f.bytes w.opened.offset cursor w.applied := by
    obtain ⟨hafter, hwithin, hupto⟩ := h.reading
    rw [← hoffset] at hafter hwithin hupto
    rw [← hdiscard] at hupto
    rw [hfileBytes] at hwithin hupto
    exact ⟨hafter, hwithin, hupto⟩
  have hread := readFrom_spec hreading hlimit hbytes state closing
  refine ⟨⟨fun i hi => ?_, fun hnone => ?_⟩, ?_, fun c hc => ?_⟩
  · rw [hread.inode, hcursor] at hi
    exact (Option.some.inj hi).symm
  · rw [hread.inode, hcursor] at hnone
    cases hnone
  · rw [hfileBytes]
    refine hread.reading.imp_right fun hend => ⟨hclosing ▸ hend.1, ?_⟩
    rw [hread.drained]
    exact decide_eq_true hend.2
  · have hsome : closing = true := by rw [hclosing, hc]; rfl
    have hatMost := hread.atMost
    have hlimit' := hclose c hc
    refine ⟨by omega, ?_⟩
    rw [hread.drained, hfileBytes, ← hoffset, ← hlimit']
    by_cases hend : limit ≤ (readFrom r f.bytes cursor state limit closing).cursor.offset
    · rw [decide_eq_true hend, if_pos rfl, hread.messages]
      congr 1
      omega
    · rw [decide_eq_false hend, if_neg Bool.false_ne_true]
      exact (hread.progress hsome).resolve_left hend

theorem consume_spec (h : OpenOk r inode w) (hfile : ∀ f, w.file = some f → f.inode = inode) :
    ConsumeOk r inode w (consume r w.file w.data.cursor w.data.state w.data.closing) := by
  unfold consume
  split
  · rename_i hnone
    refine consumeOk_stay h h.cursor rfl rfl fun c hc => ?_
    obtain ⟨-, -, hle⟩ := h.closing c hc
    rw [hnone] at hle
    exact Nat.le_zero.mp hle
  · rename_i f hsome
    have hinode := hfile f hsome
    have hwithin : w.data.cursor.offset ≤ f.bytes.length := by
      have := h.reading.within
      rwa [hsome] at this
    rw [if_neg]
    · -- the cursor on the file, which may have been made since
      obtain ⟨cursor, hcursor⟩ : ∃ cursor : Cursor, cursor =
          if w.data.cursor.inode = none then ⟨some f.inode, 0, false⟩ else w.data.cursor := ⟨_, rfl⟩
      have hsame : cursor.inode = some inode ∧ cursor.offset = w.data.cursor.offset ∧ cursor.discard = w.data.cursor.discard := by
        by_cases hnew : w.data.cursor.inode = none
        · rw [if_pos hnew] at hcursor
          obtain ⟨hoffset, hdiscard⟩ := h.cursor.none hnew
          rw [hcursor, hinode, hoffset, hdiscard]
          exact ⟨rfl, rfl, rfl⟩
        · rw [if_neg hnew] at hcursor
          obtain ⟨i, hi⟩ := Option.ne_none_iff_exists'.mp hnew
          rw [hcursor, hi, h.cursor.some i hi]
          exact ⟨rfl, rfl, rfl⟩
      rw [← hcursor]
      have hknown : Known inode cursor := by
        refine ⟨fun i hi => ?_, fun hnone => ?_⟩
        · rw [hsame.1] at hi
          exact (Option.some.inj hi).symm
        · rw [hsame.1] at hnone
          cases hnone
      cases hclosing : w.data.closing with
      | none =>
        refine consumeOk_read h hsome hsame.1 hsame.2.1 hsame.2.2 (hsame.2.1 ▸ hwithin) (le_refl _) ?_ fun c hc => ?_
        · rw [hclosing]
          rfl
        · rw [hclosing] at hc
          cases hc
      | some closing =>
        obtain ⟨hclosed, hle, hbytes⟩ := h.closing closing hclosing
        dsimp only
        split_ifs with hother
        · refine consumeOk_stay h hknown hsame.2.1 hsame.2.2 fun c hc => ?_
          obtain rfl : closing = c := Option.some.inj (hclosing.symm.trans hc)
          refine (hclosed.none ?_).1
          cases hnone : closing.inode with
          | none => rfl
          | some i => exact absurd (by rw [hnone, hclosed.some i hnone, hinode]) hother
        · rw [hsome] at hbytes
          refine consumeOk_read h hsome hsame.1 hsame.2.1 hsame.2.2 (hsame.2.1 ▸ hle) hbytes ?_ fun c hc => ?_
          · rw [hclosing]
            rfl
          · rw [Option.some.inj (hclosing.symm.trans hc)]
    · cases hcursor : w.data.cursor.inode with
      | none => simp
      | some i =>
        rw [Option.any_some, Bool.or_eq_true, decide_eq_true_eq, decide_eq_true_eq, h.cursor.some i hcursor, hinode]
        omega

structure FilesOk (r : Reader) (inode : ℕ) (w : World) : Prop where
  file : ∀ f, w.file = some f → f.inode = inode
  windows : ∀ window ∈ w.windows, ∃ closing, window.closing = some closing ∧ closing.offset ≤ (bytesOf w.file).length ∧
    window.applied = windowMessages r (bytesOf w.file) window.opened.offset closing.offset

structure Inv (r : Reader) (inode : ℕ) (w : World) : Prop extends FilesOk r inode w where
  voting : w.data.state.phase ∈ VOTING → OpenOk r inode w

theorem bytesOf_grow (file : Option File) (more : Option (List ℕ)) :
    ∃ bytes, ∀ inode, bytesOf (grow inode file more) = bytesOf file ++ bytes := by
  cases more with
  | none => exact ⟨[], fun _ => (append_nil _).symm⟩
  | some more => exact ⟨more, fun _ => rfl⟩

theorem grow_inode (h : ∀ f, file = some f → f.inode = inode) (more : Option (List ℕ)) :
    ∀ f, grow inode file more = some f → f.inode = inode := by
  cases more with
  | none => exact h
  | some more =>
    intro f hf
    rw [← Option.some.inj hf]

theorem windowMessages_grow {closing : ℕ} (h : closing ≤ bytes.length) (more : List ℕ) :
    windowMessages r (bytes ++ more) opened closing = windowMessages r bytes opened closing := by
  rw [windowMessages, take_append_of_le_length h, windowMessages]

theorem FilesOk.grown (h : FilesOk r inode w) (more : Option (List ℕ)) : FilesOk r inode (w.grown inode more) := by
  obtain ⟨bytes, hbytes⟩ := bytesOf_grow w.file more
  refine ⟨grow_inode h.file more, fun window hwindow => ?_⟩
  obtain ⟨closing, hclosing, hle, happlied⟩ := h.windows window hwindow
  refine ⟨closing, hclosing, ?_, ?_⟩
  · rw [World.grown, hbytes, length_append]
    omega
  · rw [World.grown, hbytes, windowMessages_grow hle]
    exact happlied

theorem OpenOk.grown (h : OpenOk r inode w) (more : Option (List ℕ)) : OpenOk r inode (w.grown inode more) := by
  obtain ⟨bytes, hbytes⟩ := bytesOf_grow w.file more
  refine ⟨?_, h.cursor, fun c hc => ?_, h.due⟩
  · rw [World.grown, hbytes]
    exact h.reading.grow bytes
  · obtain ⟨hknown, hle, hwithin⟩ := h.closing c hc
    refine ⟨hknown, hle, ?_⟩
    rw [World.grown, hbytes, length_append]
    omega

theorem length_cursor_at_end (file : Option File) : (cursor_at_end file).offset = (bytesOf file).length := by
  cases file with
  | none => rfl
  | some f => rfl

theorem known_cursor_at_end (h : ∀ f, file = some f → f.inode = inode) : Known inode (cursor_at_end file) := by
  cases file with
  | none => exact ⟨fun i hi => (by cases hi), fun _ => ⟨rfl, rfl⟩⟩
  | some f => exact ⟨fun i hi => by rw [← Option.some.inj hi, h f rfl], fun hnone => (by cases hnone)⟩

theorem OpenOk.snapshot (h : OpenOk r inode w) (hfile : ∀ f, w.file = some f → f.inode = inode) {delay : ℕ}
    (hdelay : delayOf w.data.state = some delay) (hdue : due = decide (delay ≤ w.clock - w.data.phase_at)) :
    OpenOk r inode (w.snapshot due) ∧ (due = true ↔ (w.snapshot due).data.closing.isSome) := by
  have hdue' : ∀ c, w.data.closing = some c → due = true := by
    intro c hc
    rw [hdue]
    exact decide_eq_true (h.due c hc delay hdelay)
  by_cases hnew : (due && w.data.closing.isNone) = true
  · have hsnapshot : w.snapshot due = { w with data := { w.data with closing := some (cursor_at_end w.file) } } := by
      rw [World.snapshot, if_pos hnew]
    rw [Bool.and_eq_true] at hnew
    rw [hsnapshot]
    refine ⟨⟨h.reading, h.cursor, fun c hc => ?_, fun c hc d hd => ?_⟩, by simp [hnew.1]⟩
    · rw [← Option.some.inj hc]
      refine ⟨known_cursor_at_end hfile, ?_, (length_cursor_at_end w.file).le⟩
      rw [length_cursor_at_end]
      exact h.reading.within
    · rw [← Option.some.inj (hdelay.symm.trans hd)]
      exact of_decide_eq_true (hdue ▸ hnew.1)
  · have hsnapshot : w.snapshot due = w := by rw [World.snapshot, if_neg hnew]
    rw [hsnapshot]
    refine ⟨h, ?_⟩
    cases hclosing : w.data.closing with
    | none => simpa [hclosing] using hnew
    | some c => simp [hdue' c hclosing]

theorem placed_lt : ∀ line ∈ placed start lines, line.1 < start + (join newline lines).length := by
  induction lines generalizing start with
  | nil => exact fun _ hline => absurd hline not_mem_nil
  | cons line lines ih =>
    intro l hl
    simp only [join, flatMap_cons, length_append, length_singleton]
    rcases mem_cons.mp hl with rfl | hl
    · omega
    · have := ih l hl
      rw [join] at this
      omega

/-- The last byte of a file is no line feed when a line has begun. -/
theorem last_rest (bytes : List ℕ) : (bytes.getLast?.any fun b => decide (b ≠ newline)) = true ↔ rest newline bytes ≠ [] := by
  have hsplit : join newline (complete newline bytes) ++ rest newline bytes = bytes := join_split bytes
  by_cases hrest : rest newline bytes = []
  · rw [hrest, append_nil] at hsplit
    rw [← hsplit]
    refine iff_of_false ?_ (by rwa [hsplit, not_not])
    rcases eq_nil_or_concat (complete newline bytes) with hnil | ⟨lines, line, hlines⟩
    · simp [hnil, join]
    · rw [hlines, concat_eq_append, join_append]
      simp [join]
  · refine iff_of_true ?_ hrest
    have hlast : bytes.getLast? = (rest newline bytes).getLast? := by
      conv_lhs => rw [← hsplit]
      exact List.getLast?_append_of_ne_nil _ hrest
    rw [hlast, List.getLast?_eq_some_getLast hrest, Option.any_some, decide_eq_true_eq]
    exact fun heq => sep_notMem_rest bytes (heq ▸ getLast_mem hrest)

/-- Nothing was written after the end of a file. -/
theorem reading_at_end (file : Option File) : Reading r (bytesOf file) (cursor_at_end file).offset (cursor_at_end file) [] := by
  rw [length_cursor_at_end]
  have hsplit : join newline (complete newline (bytesOf file)) ++ rest newline (bytesOf file) = bytesOf file := join_split _
  refine ⟨(length_cursor_at_end file).ge, (length_cursor_at_end file).le, complete newline (bytesOf file),
    rest newline (bytesOf file), ⟨?_, complete_whole _, sep_notMem_rest _, ?_⟩, ?_⟩
  · rw [length_cursor_at_end, take_length, hsplit]
  · have hle : (join newline (complete newline (bytesOf file))).length ≤ (bytesOf file).length := by
      conv_rhs => rw [← hsplit]
      rw [length_append]
      exact Nat.le_add_right _ _
    have hnone : (placed 0 (complete newline (bytesOf file))).filter (fun line => decide ((bytesOf file).length ≤ line.1)) = [] := by
      refine filter_eq_nil_iff.mpr fun line hline => ?_
      have := placed_lt line hline
      rw [decide_eq_true_eq]
      omega
    rw [messagesFrom, hnone]
    rfl
  · cases file with
    | none => rfl
    | some f =>
      have hlast := last_rest f.bytes
      show if f.unfinished then _ else _
      split_ifs with hunfinished
      · left
        have hrest := hlast.mp hunfinished
        have hlen := congrArg List.length hsplit
        rw [length_append] at hlen
        have hpos : 0 < (rest newline (bytesOf (some f))).length := length_pos_of_ne_nil hrest
        omega
      · exact not_not.mp fun hrest => hunfinished (hlast.mpr hrest)

theorem inv_opened (h : FilesOk r inode w) (hclosing : w.data.closing = none) : Inv r inode w.openWindow := by
  unfold World.openWindow
  split_ifs with hvoting
  · refine ⟨⟨h.file, h.windows⟩, fun _ => ⟨reading_at_end w.file, known_cursor_at_end h.file, fun c hc => ?_, fun c hc => ?_⟩⟩
    · cases hclosing.symm.trans hc
    · cases hclosing.symm.trans hc
  · exact ⟨h, fun hphase => absurd hphase hvoting⟩

/-- The end of a phase closes its window, with what came before the closing. -/
theorem inv_advance (hfiles : FilesOk r inode w)
    (hclose : w.data.state.phase ∈ VOTING → due = true → drained = true → ∃ closing, w.data.closing = some closing ∧
      closing.offset ≤ (bytesOf w.file).length ∧ w.applied = windowMessages r (bytesOf w.file) w.opened.offset closing.offset)
    (hopen : w.data.state.phase ∈ VOTING → ¬ (due && drained) = true → OpenOk r inode w)
    (h : advance inode w drained due more = some w') : Inv r inode w' := by
  unfold advance at h
  split_ifs at h with hend
  · obtain ⟨state, -, h⟩ := Option.bind_eq_some_iff.mp h
    obtain rfl := Option.some.inj h
    refine inv_opened (FilesOk.grown ?_ more) rfl
    rw [Bool.and_eq_true] at hend
    unfold World.closeWindow
    split_ifs with hvoting
    · refine ⟨hfiles.file, fun window hwindow => ?_⟩
      rcases mem_append.mp hwindow with hwindow | hwindow
      · exact hfiles.windows window hwindow
      · rw [mem_singleton.mp hwindow]
        exact hclose hvoting hend.1 hend.2
    · exact ⟨hfiles.file, hfiles.windows⟩
  · obtain rfl := Option.some.inj h
    exact ⟨hfiles, fun hvoting => hopen hvoting hend⟩

/-- The window at the read of a call. -/
theorem voting_read {delay : ℕ} (h : Inv r inode w) (hvoting : w.data.state.phase ∈ VOTING)
    (hdelay : delayOf w.data.state = some delay) (hdue : due = decide (delay ≤ w.clock - w.data.phase_at)) :
    OpenOk r inode (((w.grown inode t.growth.1).snapshot due).grown inode t.growth.2.1) ∧
      FilesOk r inode (((w.grown inode t.growth.1).snapshot due).grown inode t.growth.2.1) ∧
      (due = true ↔ ((w.grown inode t.growth.1).snapshot due).data.closing.isSome) := by
  have hgrown := h.toFilesOk.grown t.growth.1
  obtain ⟨hopen, hsome⟩ := ((h.voting hvoting).grown t.growth.1).snapshot hgrown.file hdelay hdue
  have hsnapshot : FilesOk r inode ((w.grown inode t.growth.1).snapshot due) := ⟨hgrown.file, hgrown.windows⟩
  exact ⟨hopen.grown t.growth.2.1, hsnapshot.grown t.growth.2.1, hsome⟩

theorem inv_runPhase (h : Inv r inode w) (hrun : runPhase r inode w t = some w') : Inv r inode w' := by
  obtain ⟨delay, hdelay, hrun⟩ := Option.bind_eq_some_iff.mp hrun
  dsimp only at hrun
  split_ifs at hrun with hvoting
  · obtain ⟨due, hdue⟩ : ∃ due : Bool, due = decide (delay ≤ w.clock - w.data.phase_at) := ⟨_, rfl⟩
    rw [← hdue] at hrun
    obtain ⟨hopen, hfiles, hsome⟩ := voting_read (t := t) h hvoting hdelay hdue
    generalize hw : ((w.grown inode t.growth.1).snapshot due).grown inode t.growth.2.1 = v at hrun hopen hfiles
    have hclosing : v.data.closing.isSome ↔ due = true := by rw [← hw]; exact hsome.symm
    have hread := consume_spec hopen hfiles.file
    have hsame := consume_same (r := r) v.file v.data.cursor v.data.state v.data.closing
    have hfiles' : FilesOk r inode (v.read r).1 := ⟨hfiles.file, hfiles.windows⟩
    refine inv_advance hfiles' (fun _ hdue' hdrained => ?_) (fun _ hgoes => ?_) hrun
    · obtain ⟨closing, hc⟩ := Option.isSome_iff_exists.mp (hclosing.mpr hdue')
      have hend := (hread.closing closing hc).2
      have hdrained' : (consume r v.file v.data.cursor v.data.state v.data.closing).drained = true := hdrained
      rw [if_pos hdrained'] at hend
      exact ⟨closing, hc, (hopen.closing closing hc).2.2, hend⟩
    · refine ⟨hread.reading.resolve_right fun hend => hgoes ?_, hread.cursor, fun c hc => ?_, fun c hc d hd => ?_⟩
      · rw [hclosing.mp hend.1]
        exact hend.2
      · obtain ⟨hknown, -, hbytes⟩ := hopen.closing c hc
        exact ⟨hknown, (hread.closing c hc).1, hbytes⟩
      · exact hopen.due c hc d (hsame.delay.symm.trans hd)
  · exact inv_advance h.toFilesOk (fun hphase => absurd hphase hvoting) (fun hphase => absurd hphase hvoting) hrun

theorem transition_phase {target : Phase} (h : _transition s target = some s') : s'.phase = target := by
  unfold _transition at h
  split_ifs at h
  cases h
  rfl

theorem stopPhase_spec (h : stopPhase w reason = some w') :
    w'.data.state.phase ∈ TERMINAL ∧ w'.file = w.file ∧ w'.windows = w.windows := by
  obtain ⟨state, hstate, rfl⟩ := Option.map_eq_some_iff.mp h
  refine ⟨?_, rfl, rfl⟩
  cases reason with
  | duration =>
    simp only [stoppedState, timeout] at hstate
    split_ifs at hstate
    simp [transition_phase hstate, TERMINAL]
  | manual =>
    simp only [stoppedState, fail] at hstate
    split_ifs at hstate
    simp [transition_phase hstate, TERMINAL]

theorem not_voting_of_terminal {phase : Phase} (h : phase ∈ TERMINAL) : phase ∉ VOTING := by
  revert phase
  decide

theorem inv_stopPhase (h : FilesOk r inode w) (hstop : stopPhase w reason = some w') : Inv r inode w' := by
  obtain ⟨hterminal, hfile, hwindows⟩ := stopPhase_spec hstop
  refine ⟨⟨hfile ▸ h.file, ?_⟩, fun hvoting => absurd hvoting (not_voting_of_terminal hterminal)⟩
  rw [hwindows, hfile]
  exact h.windows

theorem inv_later (h : Inv r inode w) (elapsed : ℚ≥0) : Inv r inode { w with clock := w.clock + elapsed } := by
  refine ⟨⟨h.file, h.windows⟩, fun hvoting => ?_⟩
  have hopen := h.voting hvoting
  refine ⟨hopen.reading, hopen.cursor, hopen.closing, fun c hc delay hdelay => ?_⟩
  have hdue := hopen.due c hc delay hdelay
  have hlater : (0 : ℚ) ≤ elapsed := elapsed.2
  linarith

theorem inv_activate (h : Inv r inode w) (hactivate : activate inode w t = some w') :
    Inv r inode w' ∧ w'.windows = w.windows := by
  obtain ⟨state, hstate, rfl⟩ := Option.map_eq_some_iff.mp hactivate
  have hphase : state.phase = .scene := by
    unfold start at hstate
    split_ifs at hstate
    cases hstate
    rfl
  have hfiles := h.toFilesOk.grown t.growth.1
  refine ⟨⟨⟨hfiles.file, hfiles.windows⟩, fun hvoting => ?_⟩, rfl⟩
  rw [show _ = Phase.scene from hphase] at hvoting
  exact absurd hvoting (by decide)

theorem inv_tick (h : Inv r inode w) (htick : tick r inode w t = some w') : Inv r inode w' := by
  have hlater := inv_later h t.elapsed
  unfold tick at htick
  dsimp only at htick
  split_ifs at htick with hidle hterminal
  · obtain ⟨v, hactivate, hstop⟩ := Option.bind_eq_some_iff.mp htick
    have hv := (inv_activate hlater hactivate).1
    cases hreason : t.stop_reason with
    | none =>
      rw [hreason] at hstop
      exact Option.some.inj hstop ▸ hv
    | some reason =>
      rw [hreason] at hstop
      exact inv_stopPhase hv.toFilesOk hstop
  · exact Option.some.inj htick ▸ hlater
  · cases hreason : t.stop_reason with
    | none =>
      rw [hreason] at htick
      exact inv_runPhase hlater htick
    | some reason =>
      rw [hreason] at htick
      exact inv_stopPhase hlater.toFilesOk htick

theorem inv_prepare (bytes : Option (List ℕ)) (clock : ℚ) (scenario : Scenario) :
    Inv r inode (prepare inode bytes clock scenario) := by
  refine ⟨⟨fun f hf => ?_, fun _ hwindow => absurd hwindow not_mem_nil⟩, fun hvoting => ?_⟩
  · obtain ⟨_, -, rfl⟩ := Option.map_eq_some_iff.mp hf
    rfl
  · exact absurd (show Phase.idle ∈ VOTING from hvoting) (by decide)

theorem inv_run (h : Inv r inode w) (hrun : run r inode w ticks = some w') : Inv r inode w' := by
  induction ticks generalizing w with
  | nil => exact Option.some.inj hrun ▸ h
  | cons t ticks ih =>
    obtain ⟨v, htick, hrun⟩ := Option.bind_eq_some_iff.mp hrun
    exact ih (inv_tick h htick) hrun

/-! ## The end of a window -/

theorem advance_windows (h : advance inode w drained due more = some w') :
    w.windows.length ≤ w'.windows.length ∧ (w.data.state.phase ∈ VOTING → (due && drained) = true →
      w.windows.length < w'.windows.length) ∧ ((due && drained) = false → w' = w) := by
  unfold advance at h
  split_ifs at h with hend
  · obtain ⟨state, -, h⟩ := Option.bind_eq_some_iff.mp h
    obtain rfl := Option.some.inj h
    have hopen : ∀ v : World, v.openWindow.windows = v.windows := fun v => by
      unfold World.openWindow
      split_ifs
      · rfl
      · rfl
    have hwindows : (((w.closeWindow.enter state).grown inode more).openWindow).windows = w.closeWindow.windows := hopen _
    rw [hwindows]
    unfold World.closeWindow
    split_ifs with hvoting
    · simp only [length_append, length_singleton]
      exact ⟨Nat.le_succ _, fun _ _ => Nat.lt_succ_self _, fun hgoes => absurd hgoes (by simp [hend])⟩
    · exact ⟨le_refl _, fun hphase => absurd hphase hvoting, fun hgoes => absurd hgoes (by simp [hend])⟩
  · obtain rfl := Option.some.inj h
    exact ⟨le_refl _, fun _ hgoes => absurd hgoes hend, fun _ => rfl⟩

theorem runPhase_windows (h : runPhase r inode w t = some w') : w.windows.length ≤ w'.windows.length := by
  obtain ⟨delay, -, h⟩ := Option.bind_eq_some_iff.mp h
  split_ifs at h
  · exact (advance_windows h).1
  · exact (advance_windows h).1

theorem tick_windows (htick : tick r inode w t = some w') : w.windows.length ≤ w'.windows.length ∧
    (w.data.state.phase ∈ TERMINAL → w'.data.state.phase ∈ TERMINAL) := by
  unfold tick at htick
  dsimp only at htick
  split_ifs at htick with hidle hterminal
  · have hno : w.data.state.phase ∉ TERMINAL := by rw [hidle]; decide
    obtain ⟨v, hactivate, hstop⟩ := Option.bind_eq_some_iff.mp htick
    obtain ⟨state, -, rfl⟩ := Option.map_eq_some_iff.mp hactivate
    refine ⟨?_, fun h => absurd h hno⟩
    cases hreason : t.stop_reason with
    | none =>
      rw [hreason] at hstop
      rw [← Option.some.inj hstop]
      exact le_refl _
    | some reason =>
      rw [hreason] at hstop
      rw [(stopPhase_spec hstop).2.2]
      exact le_refl _
  · rw [← Option.some.inj htick]
    exact ⟨le_refl _, id⟩
  · cases hreason : t.stop_reason with
    | none =>
      rw [hreason, Option.elim_none] at htick
      exact ⟨(runPhase_windows htick :), fun h => absurd h hterminal⟩
    | some reason =>
      rw [hreason] at htick
      obtain ⟨hphase, -, hwindows⟩ := stopPhase_spec htick
      rw [hwindows]
      exact ⟨le_refl _, fun _ => hphase⟩

/-- The window was closed, or the session stopped. -/
def Over (w w' : World) : Prop := w.windows.length < w'.windows.length ∨ w'.data.state.phase ∈ TERMINAL

theorem over_run {v : World} (h : Over w v) (hrun : run r inode v ticks = some w') : Over w w' := by
  induction ticks generalizing v with
  | nil => exact Option.some.inj hrun ▸ h
  | cons t ticks ih =>
    obtain ⟨v', htick, hrun⟩ := Option.bind_eq_some_iff.mp hrun
    obtain ⟨hwindows, hphase⟩ := tick_windows htick
    exact ih (h.imp (fun hlt => hlt.trans_le hwindows) hphase) hrun

/-- A call in a window with its closing: the window is over, or the reader goes on. -/
theorem tick_closing (h : Inv r inode w) (hvoting : w.data.state.phase ∈ VOTING)
    (hclosing : w.data.closing = some closing) (htick : tick r inode w t = some w') :
    Over w w' ∨ w'.data.state.phase ∈ VOTING ∧ w'.data.closing = some closing ∧ w'.windows = w.windows ∧
      w.data.cursor.offset < w'.data.cursor.offset := by
  have hlater := inv_later h t.elapsed
  unfold tick at htick
  have hidle : w.data.state.phase ≠ .idle := fun hidle => absurd (hidle ▸ hvoting) (by decide)
  have hterminal : w.data.state.phase ∉ TERMINAL := fun hterminal => not_voting_of_terminal hterminal hvoting
  rw [if_neg hidle, if_neg hterminal] at htick
  cases hreason : t.stop_reason with
  | some reason =>
    rw [hreason] at htick
    exact .inl (.inr (stopPhase_spec htick).1)
  | none =>
    rw [hreason, Option.elim_none] at htick
    obtain ⟨delay, hdelay, htick⟩ := Option.bind_eq_some_iff.mp htick
    rw [if_pos hvoting] at htick
    have hdue : delay ≤ w.clock + t.elapsed - w.data.phase_at := (hlater.voting hvoting).due closing hclosing delay hdelay
    rw [decide_eq_true hdue] at htick
    have hclosing' : ∀ more, (({ w with clock := w.clock + t.elapsed }.grown inode more).snapshot true).data.closing =
        some closing := fun more => by
      simp only [World.snapshot, World.grown, hclosing]
      rfl
    obtain ⟨hopen, hfiles, -⟩ := voting_read (t := t) hlater hvoting hdelay (decide_eq_true hdue).symm
    generalize hv : (({ w with clock := w.clock + t.elapsed }.grown inode t.growth.1).snapshot true).grown inode t.growth.2.1 = v
      at htick hopen hfiles
    have hdata : v.data.closing = some closing := by rw [← hv]; exact hclosing' _
    have hcursor : v.data.cursor = w.data.cursor := by rw [← hv]; rfl
    have hwindows : v.windows = w.windows := by rw [← hv]; rfl
    have hstate : v.data.state = w.data.state := by rw [← hv]; rfl
    have hread := (consume_spec hopen hfiles.file).closing closing hdata
    have hsame := consume_same (r := r) v.file v.data.cursor v.data.state v.data.closing
    obtain ⟨-, hclosed, hgoes⟩ := advance_windows htick
    cases hdrained : (consume r v.file v.data.cursor v.data.state v.data.closing).drained with
    | true =>
      refine .inl (.inl (hwindows ▸ hclosed ?_ ?_))
      · show (consume r v.file v.data.cursor v.data.state v.data.closing).state.phase ∈ VOTING
        rwa [hsame.phase, hstate]
      · exact hdrained
    | false =>
      rw [hdrained, if_neg Bool.false_ne_true] at hread
      rw [hgoes hdrained]
      refine .inr ⟨?_, hdata, hwindows, ?_⟩
      · show (consume r v.file v.data.cursor v.data.state v.data.closing).state.phase ∈ VOTING
        rwa [hsame.phase, hstate]
      · rw [← hcursor]
        exact hread.2

theorem over_closing (h : Inv r inode w) (hvoting : w.data.state.phase ∈ VOTING)
    (hclosing : w.data.closing = some closing) (hmany : closing.offset < w.data.cursor.offset + ticks.length)
    (hrun : run r inode w ticks = some w') : Over w w' := by
  induction ticks generalizing w with
  | nil =>
    have hle := ((h.voting hvoting).closing closing hclosing).2.1
    rw [length_nil] at hmany
    omega
  | cons t ticks ih =>
    obtain ⟨v, htick, hrun⟩ := Option.bind_eq_some_iff.mp hrun
    rcases tick_closing h hvoting hclosing htick with hover | ⟨hvoting', hclosing', hwindows, hlt⟩
    · exact over_run hover hrun
    · rw [length_cons] at hmany
      have hover := ih (inv_tick h htick) hvoting' hclosing' (by omega) hrun
      rwa [Over, hwindows] at hover

def asciiReader : Reader where
  unicode := {
    isspace := fun c => c = 32 || (9 ≤ c && c ≤ 13)
    lower := fun t => t.map fun c => if 65 ≤ c ∧ c ≤ 90 then c + 32 else c
    isdigit := fun c => 48 ≤ c && c ≤ 57
    int := fun t => some (t.foldl (fun n c => 10 * n + (c - 48)) 0) }
  loads := fun _ => none

def twoWays : Scenario := ⟨[1], [⟨[1], 2, []⟩], none⟩

def voteLine : List ℕ :=
  [9] ++ userField ++ [55, 9, 9, 9] ++ flagsField ++ [9, 97, 58, 32, 33, 49, newline]

/-- The story begins, its window opens behind a line that was begun, a vote comes, and the window closes. -/
def oneVote : Option World :=
  run asciiReader 1 (prepare 1 (some [97]) 0 twoWays)
    [⟨0, none, none, none, none⟩, ⟨3, none, none, none, none⟩, ⟨1, none, some (98 :: newline :: voteLine), none, none⟩,
      ⟨60, none, some [99], some voteLine, none⟩]

theorem oneVote_isSome : oneVote.isSome := by decide +kernel

end Docich.Trpg
