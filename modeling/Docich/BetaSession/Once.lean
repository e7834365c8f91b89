import Docich.BetaSession.Session

/-!
# No move is sent twice

- `Lawful`: a move is logged after the checkpoint that has it pending, once, and after an earlier move of its position was
  refused or cost a foul; the queue is joined without a game;
- `Knows`: what a gate knows of the moves that were sent, whether it is the gate in memory or the one of a checkpoint;
- `TurnOk`: an operation keeps it, and what it saves is what is in memory;
- `inv_next`, `moves_once`: a step of the world, and every run.
-/

namespace Docich.BetaSession

open MoveGate List Option Except

variable {env : Env} {log l : List Entry} {g g' : JsGate} {s : Session} {w : World} {view : View} {intent : Intent} {fouls : ℤ}

/-! ## The law of the log -/

/-- Since a move was sent, it was refused, or a view came with more own fouls than the one that it was chosen from. -/
def Separated (intent : Intent) (fouls : ℤ) (since : List Entry) : Prop :=
  .refused intent ∈ since ∨ ∃ view, .viewed view ∈ since ∧ fouls < view.fouls.you

structure Fresh (earlier : List Entry) (intent : Intent) : Prop where
  new : ∀ i n, .move i n ∈ earlier → (i.gameId, i.moveNumber, i.usi) ≠ (intent.gameId, intent.moveNumber, intent.usi)
  apart : ∀ a i n b, earlier = a ++ .move i n :: b → i.moveNumber = intent.moveNumber → Separated i n b

structure MoveAllowed (earlier : List Entry) (intent : Intent) : Prop extends Fresh earlier intent where
  saved : ∃ c, .saved (.active c) ∈ earlier ∧ c.gate.pending = some intent

def Allowed (earlier : List Entry) : Entry → Prop
  | .move intent _ => MoveAllowed earlier intent
  | .join gameId => gameId = none
  | _ => True

/-- Every entry is allowed by the ones before it. -/
def Lawful (log : List Entry) : Prop := ∀ earlier e later, log = earlier ++ e :: later → Allowed earlier e

def Entry.quiet : Entry → Prop
  | .move _ _ => False
  | .join gameId => gameId = none
  | _ => True

theorem Entry.quiet.allowed {e : Entry} (h : e.quiet) (earlier : List Entry) : Allowed earlier e := by
  cases e with
  | move i n => exact h.elim
  | join gameId => exact h
  | saved | refused | viewed => trivial

/-- An element of two lists is in the first or in the second. -/
theorem split_append {α : Type} {l₁ l₂ a b : List α} {x : α} (h : l₁ ++ l₂ = a ++ x :: b) :
    (∃ c, l₁ = a ++ x :: c ∧ b = c ++ l₂) ∨ ∃ c, a = l₁ ++ c ∧ l₂ = c ++ x :: b := by
  rcases append_eq_append_iff.mp h with ⟨c, ha, hl₂⟩ | ⟨c, hl₁, hb⟩
  · exact .inr ⟨c, ha, hl₂⟩
  · cases c with
    | nil => exact .inr ⟨[], by simpa using hl₁.symm, hb.symm⟩
    | cons y c =>
      rw [cons_append, List.cons.injEq] at hb
      exact .inl ⟨c, by rw [hl₁, hb.1], hb.2⟩

theorem Lawful.append (h : Lawful log) (hl : ∀ e ∈ l, e.quiet) : Lawful (log ++ l) := by
  intro earlier e later heq
  rcases split_append heq with ⟨c, hlog, -⟩ | ⟨c, -, hl₂⟩
  · exact h earlier e c hlog
  · exact (hl e (by simp [hl₂])).allowed earlier

theorem Lawful.move (h : Lawful log) (hmove : MoveAllowed log intent) : Lawful (log ++ [.move intent fouls]) := by
  intro earlier e later heq
  rcases split_append heq with ⟨c, hlog, -⟩ | ⟨c, hearlier, hlast⟩
  · exact h earlier e c hlog
  · cases c with
    | nil =>
      rw [nil_append, List.cons.injEq] at hlast
      rw [hearlier, append_nil, ← hlast.1]
      exact hmove
    | cons y c => simp at hlast

theorem Separated.append {n : ℤ} {b : List Entry} (h : Separated intent n b) (l : List Entry) : Separated intent n (b ++ l) := by
  rcases h with h | ⟨view, h, hfouls⟩
  · exact .inl (mem_append_left _ h)
  · exact .inr ⟨view, mem_append_left _ h, hfouls⟩

/-! ## What a gate knows -/

/-- The move was tried in the position of the view, and it is pending still unless something came of it. -/
structure Tried (g : JsGate) (view : View) (intent : Intent) (fouls : ℤ) (since : List Entry) : Prop where
  number : intent.moveNumber = view.moveNumber
  attempted : intent.usi ∈ g.attempted
  noMore : fouls ≤ view.fouls.you
  outcome : Separated intent fouls since ∨ g.pending = some intent ∨ view.status = .ended

/-- The view of the gate is of the game of every move that was sent, and it is later or has the move as tried. -/
def Knows (log : List Entry) (g : JsGate) : Prop :=
  ∀ a i n b, log = a ++ .move i n :: b → ∃ view, g.view = some view ∧ view.gameId = i.gameId ∧
    (i.moveNumber < view.moveNumber ∨ Tried g view i n b)

/-- Gates that know the same. -/
structure Alike (g g' : JsGate) : Prop where
  view : g'.view = g.view
  pending : g'.pending = g.pending
  attempted : g'.attempted = g.attempted

theorem knows_none (h : ∀ i n, .move i n ∉ log) : Knows log g := by
  intro a i n b heq
  exact absurd (heq ▸ mem_append_right _ mem_cons_self) (h i n)

theorem Knows.alike (h : Knows log g) (hg : Alike g g') : Knows log g' := by
  intro a i n b heq
  obtain ⟨view, hview, hgame, hpast⟩ := h a i n b heq
  refine ⟨view, hg.view.trans hview, hgame, hpast.imp_right fun htried => ?_⟩
  exact ⟨htried.number, hg.attempted ▸ htried.attempted, htried.noMore, hg.pending ▸ htried.outcome⟩

theorem Knows.append (h : Knows log g) (hl : ∀ e ∈ l, e.quiet) : Knows (log ++ l) g := by
  intro a i n b heq
  rcases split_append heq with ⟨c, hlog, rfl⟩ | ⟨c, -, hl₂⟩
  · obtain ⟨view, hview, hgame, hpast⟩ := h a i n c hlog
    refine ⟨view, hview, hgame, hpast.imp_right fun htried => ?_⟩
    exact ⟨htried.number, htried.attempted, htried.noMore, htried.outcome.imp_left fun hsep => hsep.append l⟩
  · exact (hl (.move i n) (by simp [hl₂])).elim

/-! ## What the calls on a gate do -/

variable {synchronized : Bool} {old : View} {raw usi : Value} {generation : ℤ} {r : Result Bool}
    {t : Turn}

theorem take_of_jsTake (h : jsTake g view synchronized = (g', true)) :
    ∃ advanced cleared, g' = g.take view view.fouls.you advanced cleared ∧
      (∀ old, g.view = some old → old.gameId = view.gameId → advanced = decide (old.moveNumber < view.moveNumber)) ∧
      ∀ old, g.view = some old → old.gameId = view.gameId →
        cleared = (decide (old.fouls.you < view.fouls.you) || decide (view.status = .ended)) := by
  unfold jsTake at h
  dsimp only at h
  split_ifs at h
  all_goals try exact absurd (congrArg Prod.snd h) Bool.false_ne_true
  refine ⟨_, _, (congrArg Prod.fst h).symm, fun old hold hgame => ?_, fun old hold hgame => ?_⟩
  · simp [hold, hgame]
  · simp [hold, hgame]

theorem alike_of_jsTake (h : jsTake g view synchronized = (g', false)) : Alike g g' := by
  unfold jsTake at h
  dsimp only at h
  split_ifs at h
  all_goals cases h
  all_goals exact ⟨rfl, rfl, rfl⟩

theorem newer_le (h : jsNewer (some old) view = .ok true) (hgame : old.gameId = view.gameId) :
    old.moveNumber ≤ view.moveNumber ∧ old.fouls.you ≤ view.fouls.you ∧ (old.status = .ended → view.status = .ended) := by
  simp only [jsNewer, hgame, ne_eq, not_true_eq_false, if_false] at h
  split_ifs at h with hcolor hless hstatus hconflict
  · exact absurd (ok.inj h) Bool.false_ne_true
  · exact absurd (ok.inj h) Bool.false_ne_true
  · refine ⟨by omega, by omega, fun hold => ?_⟩
    by_contra hview
    exact hstatus ⟨hold, hview⟩

/-- An accepted view: the moves before it were at most as late, and a move that is not pending any more has an outcome. -/
theorem Knows.take (h : Knows log g) (hnewer : jsNewer g.view view = .ok true)
    (hgame : ∀ old, g.view = some old → old.gameId = view.gameId) (htake : jsTake g view synchronized = (g', true)) :
    Knows (log ++ [.viewed view]) g' := by
  obtain ⟨advanced, cleared, rfl, hadvanced, hcleared⟩ := take_of_jsTake htake
  intro a i n b heq
  rcases split_append heq with ⟨c, hlog, rfl⟩ | ⟨c, -, hlast⟩
  · obtain ⟨old, hold, hgameId, hpast⟩ := h a i n c hlog
    have hsame : old.gameId = view.gameId := hgame old hold
    obtain ⟨hnumber, hfouls, hended⟩ := newer_le (hold ▸ hnewer) hsame
    refine ⟨view, rfl, hsame ▸ hgameId, ?_⟩
    rcases hpast with hpast | htried
    · exact .inl (by omega)
    · by_cases hlater : old.moveNumber < view.moveNumber
      · exact .inl (htried.number ▸ hlater)
      · have hkept : advanced = false := by
          rw [hadvanced old hold hsame]
          exact decide_eq_false hlater
        have hnum := htried.number
        have hn := htried.noMore
        refine .inr ⟨by omega, by simpa [Gate.take, hkept] using htried.attempted, by omega, ?_⟩
        rcases htried.outcome with hsep | hpending | hend
        · exact .inl (hsep.append _)
        · by_cases hproved : old.fouls.you < view.fouls.you
          · exact .inl (.inr ⟨view, by simp, by omega⟩)
          · by_cases hended' : view.status = .ended
            · exact .inr (.inr hended')
            · have : cleared = false := by
                rw [hcleared old hold hsame]
                simp [hproved, hended']
              exact .inr (.inl (by simpa [Gate.take, hkept, this] using hpending))
        · exact .inr (.inr (hended hend))
  · rcases c with _ | ⟨y, c⟩ <;> simp at hlast

/-- A view is accepted, or the gate knows what it knew. -/
theorem acceptView_cases (h : jsAcceptView env.cats g raw generation synchronized = (g', r)) :
    Alike g g' ∨ ∃ view, parsePlayerView env.cats raw = .ok view ∧ r = .ok true ∧ jsNewer g.view view = .ok true ∧
      jsTake g view synchronized = (g', true) := by
  unfold jsAcceptView at h
  split_ifs at h with hcurrent
  · cases h
    exact .inl ⟨rfl, rfl, rfl⟩
  · unfold jsAcceptCurrentView at h
    split at h
    · split_ifs at h <;> cases h <;> exact .inl ⟨rfl, rfl, rfl⟩
    · split at h
      · cases h
        exact .inl ⟨rfl, rfl, rfl⟩
      · rename_i view hview
        split at h
        · cases h
          exact .inl ⟨rfl, rfl, rfl⟩
        · cases h
          exact .inl ⟨rfl, rfl, rfl⟩
        · rename_i hnewer
          cases htake : jsTake g view synchronized with
          | mk gate taken =>
            rw [htake] at h
            cases h
            cases taken with
            | true => exact .inr ⟨view, hview, rfl, hnewer, htake⟩
            | false => exact .inl (alike_of_jsTake htake)

theorem alike_connect : Alike g g.connect := ⟨rfl, rfl, rfl⟩

theorem alike_disconnect (generation : ℤ) : Alike g (g.disconnect generation) := by
  unfold Gate.disconnect
  split_ifs
  · exact ⟨rfl, rfl, rfl⟩
  · exact ⟨rfl, rfl, rfl⟩

theorem alike_timeout (intent : Intent) : Alike g (g.timeout intent) := by
  unfold Gate.timeout
  split_ifs
  · exact ⟨rfl, rfl, rfl⟩
  · exact ⟨rfl, rfl, rfl⟩

theorem Alike.trans {g'' : JsGate} (h : Alike g g') (h' : Alike g' g'') : Alike g g'' :=
  ⟨h'.view.trans h.view, h'.pending.trans h.pending, h'.attempted.trans h.attempted⟩

/-- An acknowledgement that says `ok` takes the move. -/
theorem jsAck_taken {you : Option ℤ} {ack : Ack} (h : jsAck you raw = .ok ack) (hok : ackOk raw = some true) :
    ack = .taken := by
  cases raw with
  | object fields =>
    have hget : get fields okKey = some (.bool true) := by
      simp only [ackOk] at hok
      split at hok
      · rename_i hb
        rw [hb, some.inj hok]
      · cases hok
    simp only [jsAck, fieldsOf, hget, bind, Except.bind, pure, Except.pure] at h
    exact (ok.inj h).symm
  | null | bool | int | float | string | array => simp [ackOk] at hok

/-- An acknowledgement that counts takes the move that is pending, or refuses it. -/
theorem acknowledge_cases (h : jsAcknowledge g intent raw = (g', r)) :
    Alike g g' ∨ r = .ok true ∧ ackOk raw ≠ some true ∧ g.pending = some intent ∧
      g'.view = g.view ∧ g'.attempted = g.attempted := by
  unfold jsAcknowledge at h
  split_ifs at h with hcurrent
  · cases h
    exact .inl ⟨rfl, rfl, rfl⟩
  · simp only [not_or, not_not] at hcurrent
    split at h
    · cases h
      exact .inl ⟨rfl, rfl, rfl⟩
    · rename_i ack hack
      cases h
      by_cases hok : ackOk raw = some true
      · rw [jsAck_taken hack hok]
        exact .inl ⟨rfl, rfl, rfl⟩
      · cases ack with
        | taken => exact .inl ⟨rfl, rfl, rfl⟩
        | foul count => exact .inr ⟨rfl, hok, hcurrent.2.1, rfl, rfl⟩
        | error => exact .inr ⟨rfl, hok, hcurrent.2.1, rfl, rfl⟩

/-- A refusal is the outcome of the move that was pending. -/
theorem Knows.refuse (h : Knows log g) (hpending : g.pending = some intent) (hview : g'.view = g.view)
    (hattempted : g'.attempted = g.attempted) : Knows (log ++ [.refused intent]) g' := by
  intro a i n b heq
  rcases split_append heq with ⟨c, hlog, rfl⟩ | ⟨c, -, hlast⟩
  · obtain ⟨view, hold, hgame, hpast⟩ := h a i n c hlog
    refine ⟨view, hview.trans hold, hgame, hpast.imp_right fun htried => ?_⟩
    refine ⟨htried.number, hattempted ▸ htried.attempted, htried.noMore, ?_⟩
    rcases htried.outcome with hsep | hsame | hend
    · exact .inl (hsep.append _)
    · have : i = intent := some.inj (hsame.symm.trans hpending)
      exact .inl (.inl (by simp [this]))
    · exact .inr (.inr hend)
  · rcases c with _ | ⟨y, c⟩ <;> simp at hlast

/-- A move that is pending in a gate and was not sent before. -/
structure Ready (log : List Entry) (g : JsGate) (intent : Intent) (fouls : ℤ) : Prop extends Fresh log intent where
  pending : g.pending = some intent
  view : ∃ view, g.view = some view ∧ view.gameId = intent.gameId ∧ intent.moveNumber = view.moveNumber ∧
    fouls ≤ view.fouls.you
  attempted : intent.usi ∈ g.attempted

theorem moveView_some (h : jsMoveView g = some view) :
    g.view = some view ∧ view.status = .playing ∧ g.pending = none := by
  obtain ⟨hview, hmove⟩ := filter_eq_some_iff.mp h
  simp only [Bool.and_eq_true, decide_eq_true_eq, isNone_iff_eq_none] at hmove
  exact ⟨hview, hmove.1.1.1.2, hmove.1.2⟩

theorem prepareMove_ok (h : jsPrepareMove g usi = (g', .ok intent)) (hmove : jsMoveView g = some view) :
    intent.gameId = view.gameId ∧ intent.moveNumber = view.moveNumber ∧ intent.usi ∉ g.attempted ∧
      g' = g.attempt intent intent.usi := by
  simp only [jsPrepareMove, hmove] at h
  split at h
  · cases h
  · split_ifs at h with hattempted hsequence
    · cases h
    · cases h
    · cases h
      exact ⟨rfl, rfl, hattempted, rfl⟩

/-- A move is prepared after every earlier one of its position has an outcome. -/
theorem Knows.prepare (h : Knows log g) (hmove : jsMoveView g = some view)
    (hprepare : jsPrepareMove g usi = (g', .ok intent)) : Knows log g' ∧ Ready log g' intent view.fouls.you := by
  obtain ⟨hview, hplaying, hnone⟩ := moveView_some hmove
  obtain ⟨hgame, hnumber, hnew, rfl⟩ := prepareMove_ok hprepare hmove
  have htried : ∀ {a i n b}, log = a ++ .move i n :: b →
      view.gameId = i.gameId ∧ (i.moveNumber < view.moveNumber ∨ i.moveNumber = view.moveNumber ∧
        i.usi ∈ g.attempted ∧ n ≤ view.fouls.you ∧ Separated i n b) := by
    intro a i n b heq
    obtain ⟨old, hold, hgameId, hpast⟩ := h a i n b heq
    obtain rfl : old = view := some.inj (hold.symm.trans hview)
    refine ⟨hgameId, hpast.imp_right fun htried => ⟨htried.number, htried.attempted, htried.noMore, ?_⟩⟩
    rcases htried.outcome with hsep | hpending | hend
    · exact hsep
    · simp [hnone] at hpending
    · simp [hplaying] at hend
  refine ⟨fun a i n b heq => ?_, ⟨⟨fun i n hmem => ?_, fun a i n b heq hsame => ?_⟩, rfl, ?_, ?_⟩⟩
  · obtain ⟨hgameId, hpast⟩ := htried heq
    refine ⟨view, hview, hgameId, hpast.imp_right fun ⟨hnum, hmem, hn, hsep⟩ => ?_⟩
    exact ⟨hnum, mem_append_left _ hmem, hn, .inl hsep⟩
  · obtain ⟨a, b, heq⟩ := append_of_mem hmem
    intro htriple
    simp only [Prod.mk.injEq] at htriple
    rcases (htried heq).2 with hlt | ⟨-, hattempted, -⟩
    · omega
    · exact hnew (htriple.2.2 ▸ hattempted)
  · rcases (htried heq).2 with hlt | ⟨-, -, -, hsep⟩
    · omega
    · exact hsep
  · exact ⟨view, hview, hgame.symm, hnumber, le_refl _⟩
  · exact mem_append_right _ mem_cons_self

theorem Fresh.append (h : Fresh log intent) (hl : ∀ e ∈ l, e.quiet) : Fresh (log ++ l) intent := by
  refine ⟨fun i n hmem => ?_, fun a i n b heq hsame => ?_⟩
  · rcases mem_append.mp hmem with hmem | hmem
    · exact h.new i n hmem
    · exact (hl _ hmem).elim
  · rcases split_append heq with ⟨c, hlog, rfl⟩ | ⟨c, -, hl₂⟩
    · exact (h.apart a i n c hlog hsame).append l
    · exact (hl (.move i n) (by simp [hl₂])).elim

/-- A move is sent that the gate has pending. -/
theorem Knows.send (h : Knows log g) (hready : Ready log g intent fouls) : Knows (log ++ [.move intent fouls]) g := by
  intro a i n b heq
  rcases split_append heq with ⟨c, hlog, rfl⟩ | ⟨c, -, hlast⟩
  · obtain ⟨view, hview, hgame, hpast⟩ := h a i n c hlog
    refine ⟨view, hview, hgame, hpast.imp_right fun htried => ?_⟩
    exact ⟨htried.number, htried.attempted, htried.noMore, htried.outcome.imp_left fun hsep => hsep.append _⟩
  · cases c with
    | nil =>
      obtain ⟨⟨rfl, rfl⟩, -⟩ := hlast
      obtain ⟨view, hview, hgame, hnumber, hn⟩ := hready.view
      exact ⟨view, hview, hgame, .inr ⟨hnumber, hready.attempted, hn, .inr (.inl hready.pending)⟩⟩
    | cons y c => simp at hlast

/-! ## Operations -/

/-- What a session keeps, and what its checkpoint keeps for the next session. -/
structure Keeps (log : List Entry) (s : Session) : Prop where
  knows : Knows log s.gate
  game : ∀ view, s.gate.view = some view → s.gameId = some view.gameId

variable (h : Keeps log s)

include h in
theorem Keeps.append (hl : ∀ e ∈ l, e.quiet) : Keeps (log ++ l) s := ⟨h.knows.append hl, h.game⟩

/-- Another session with the same game and a gate that knows the same. -/
theorem Keeps.alike {s' : Session} (h : Keeps log s) (hgate : Alike s.gate s'.gate) (hgame : s'.gameId = s.gameId) :
    Keeps log s' :=
  ⟨h.knows.alike hgate, fun view hview => hgame.trans (h.game view (hgate.view.symm.trans hview))⟩

theorem Alike.refl (g : JsGate) : Alike g g := ⟨rfl, rfl, rfl⟩

include h in
theorem Keeps.restore : Keeps log (restore s.checkpoint) :=
  ⟨h.knows.alike ⟨rfl, rfl, rfl⟩, h.game⟩

theorem keeps_new (h : ∀ i n, .move i n ∉ log) : Keeps log .new :=
  ⟨knows_none h, fun view hview => absurd (show none = some view from hview) (by simp)⟩

/-- What is saved is the session in memory or a finished match, and a move that is to be sent is pending in it. -/
structure Saves (log : List Entry) (s : Session) (value : Stored) (next : Next) : Prop where
  what : value = .active s.checkpoint ∨ value = .finished
  ready : ∀ intent fouls index epoch, next = .send intent fouls index epoch →
    value = .active s.checkpoint ∧ Ready log s.gate intent fouls

structure TurnOk (log : List Entry) (t : Turn) : Prop where
  keeps : Keeps (log ++ t.log) t.session
  quiet : ∀ e ∈ t.log, e.quiet
  saves : ∀ value next, t.save = some (value, next) → Saves (log ++ t.log) t.session value next

include h

theorem ok_stay : TurnOk log (stay s) where
  keeps := by simpa [stay] using h
  quiet e he := by simp [stay] at he
  saves value next h := by simp [stay] at h

theorem ok_pause : TurnOk log (pause s) := ok_stay (h.alike (.refl _) rfl)

omit h

theorem ok_save {next : Next} (h : Keeps log s)
    (hready : ∀ intent fouls index epoch, next = .send intent fouls index epoch → Ready log s.gate intent fouls) :
    TurnOk log (save s next) where
  keeps := by simpa [save] using h
  quiet e he := by simp [save] at he
  saves value next' h := by
    obtain ⟨rfl, rfl⟩ := h
    refine ⟨.inl rfl, fun intent fouls index epoch hnext => ⟨rfl, ?_⟩⟩
    simpa [save] using hready intent fouls index epoch hnext

include h in
theorem ok_persist : TurnOk log (persist s) := by
  unfold persist
  split_ifs
  · exact ok_save h (fun _ _ _ _ hnext => nomatch hnext)
  · exact ok_stay h

theorem persist_log (s : Session) : (persist s).log = [] := by
  unfold persist
  split_ifs
  · rfl
  · rfl

/-- An operation that logs a quiet entry before it goes on. -/
theorem TurnOk.logged {e : Entry} (h : TurnOk (log ++ [e]) t) (he : e.quiet) (hlog : t.log = []) :
    TurnOk log { t with log := [e] } where
  keeps := by simpa [hlog] using h.keeps
  quiet e' he' := by rwa [mem_singleton.mp he']
  saves value next hsave := by simpa [hlog] using h.saves value next hsave

include h in
theorem ok_drain : TurnOk log (drain s) := by
  have hs : Keeps log { s with stopping := true, gate := { s.gate with quiescing := true } } := h.alike ⟨rfl, rfl, rfl⟩ rfl
  unfold drain
  dsimp only
  split_ifs
  · exact ok_save hs (fun _ _ _ _ hnext => nomatch hnext)
  · exact ok_stay hs
  · exact ok_pause hs

theorem alike_acceptNull :
    Alike g (jsAcceptView env.cats g .null generation synchronized).1 := by
  cases haccept : jsAcceptView env.cats g .null generation synchronized
  rcases acceptView_cases haccept with halike | ⟨view, hview, -⟩
  · exact halike
  · cases hview

include h

theorem ok_joinOrSync (reconnecting late : Bool) : TurnOk log (joinOrSync env s reconnecting late) := by
  have hconnect : Keeps log { s with everConnected := true, gate := s.gate.connect } := h.alike alike_connect rfl
  unfold joinOrSync
  split_ifs with hgeneration
  · exact ok_pause h
  · dsimp only
    split_ifs with hgame hdrain hclosed
    · exact ok_stay hconnect
    · exact ok_drain (hconnect.alike alike_acceptNull rfl)
    · exact ok_stay (hconnect.alike alike_acceptNull rfl)
    · have hnone : s.gameId = none := by simpa using hgame
      have hquiet : ∀ e ∈ [Entry.join s.gameId], e.quiet := by simp [Entry.quiet, hnone]
      refine ⟨Keeps.append ?_ hquiet, hquiet, fun _ _ hsave => nomatch hsave⟩
      exact hconnect.alike alike_acceptNull rfl

theorem ok_onConnect (late : Bool) : TurnOk log (onConnect env s late) := by
  unfold onConnect
  split_ifs
  · exact ok_save h (fun _ _ _ _ hnext => nomatch hnext)
  · exact ok_joinOrSync h _ late

theorem ok_onDisconnect : TurnOk log (onDisconnect s) :=
  ok_persist (h.alike (alike_disconnect _) rfl)

theorem ok_onMatch (payload : Match) (fromMatch : Bool) : TurnOk log (onMatch env s payload fromMatch) := by
  unfold onMatch
  split_ifs
  · exact ok_stay h
  · exact ok_stay h
  · split
    · exact ok_pause h
    · rename_i gameId hid
      split_ifs with hother
      · exact ok_pause h
      · have hgame : ∀ view, s.gate.view = some view → some gameId = some view.gameId := by
          intro view hview
          rw [h.game view hview, any_some, decide_eq_true_eq, not_not] at hother
          rw [hother]
        have hs : Keeps log { s with gameId := some gameId } := ⟨h.knows, hgame⟩
        split
        · exact ok_pause hs
        · exact ok_save ⟨hs.knows, hs.game⟩ (fun _ _ _ _ hnext => nomatch hnext)
        · exact ok_save hs (fun _ _ _ _ hnext => nomatch hnext)

theorem ok_maybeMove (choice : Option Text) : TurnOk log (maybeMove env s choice) := by
  unfold maybeMove
  split_ifs
  · exact ok_stay h
  · exact ok_stay h
  · split
    · exact ok_stay h
    · rename_i view hmove
      split_ifs
      · exact ok_stay (h.alike ⟨rfl, rfl, rfl⟩ rfl)
      · split
        · exact ok_pause h
        · exact ok_save (h.alike (.refl _) rfl) (fun _ _ _ _ hnext => nomatch hnext)
        · rename_i record usi hrecord
          split
          · exact ok_pause h
          · rename_i gate intent hprepare
            obtain ⟨hknows, hready⟩ := h.knows.prepare hmove hprepare
            obtain ⟨-, -, -, hgate⟩ := prepareMove_ok hprepare hmove
            refine ok_save ⟨hknows, fun old hold => h.game old ?_⟩ fun _ _ _ _ hnext => ?_
            · rw [hgate] at hold
              exact hold
            · cases hnext
              exact hready

/-- A view of another game than the one of the gate is dropped. -/
theorem known_game (hother : ¬ s.gameId.any (· ≠ view.gameId)) (hold : s.gate.view = some old) :
    some view.gameId = some old.gameId := by
  rw [h.game old hold, any_some, decide_eq_true_eq, not_not] at hother
  rw [hother]

omit h

theorem judge_gate (prior : Option View) (intent : Option Intent) (view : View) :
    (s.judge prior intent view).gate = s.gate ∧ (s.judge prior intent view).gameId = s.gameId := by
  unfold Session.judge
  split
  · split_ifs
    · exact ⟨rfl, rfl⟩
    · exact ⟨rfl, rfl⟩
    · exact ⟨rfl, rfl⟩
  · exact ⟨rfl, rfl⟩

include h in
theorem Keeps.learn (hother : ¬ s.gameId.any (· ≠ view.gameId)) : Keeps log (s.learn view) :=
  ⟨h.knows, fun _ hold => known_game h hother hold⟩

theorem ok_offerView (h : Keeps log s) (hgame : s.gameId = some view.gameId)
    (hparse : parsePlayerView env.cats raw = .ok view) (generation : ℤ) (synchronized : Bool) :
    TurnOk log (offerView env s raw view generation synchronized) := by
  unfold offerView
  cases haccept : jsAcceptView env.cats s.gate raw generation synchronized with
  | mk gate r =>
    have hcases := acceptView_cases haccept
    match r with
    | .error code =>
      rcases hcases with halike | ⟨-, -, hr, -⟩
      · exact ok_save (h.alike halike rfl) (fun _ _ _ _ hnext => nomatch hnext)
      · cases hr
    | .ok false =>
      rcases hcases with halike | ⟨-, -, hr, -⟩
      · exact ok_stay (h.alike halike rfl)
      · cases hr
    | .ok true =>
      have hkept : Keeps (log ++ [.viewed view]) (s.withGate gate) := by
        rcases hcases with halike | ⟨view', hview, -, hnewer, htake⟩
        · exact Keeps.append (h.alike halike rfl) (by simp [Entry.quiet])
        · obtain rfl : view = view' := ok.inj (hparse.symm.trans hview)
          refine ⟨h.knows.take hnewer (fun old hold => ?_) htake, fun old hold => ?_⟩
          · exact some.inj ((h.game old hold).symm.trans hgame)
          · obtain ⟨_, _, rfl, -⟩ := take_of_jsTake htake
            obtain rfl : view = old := some.inj hold
            exact hgame
      obtain ⟨hgate, hsame⟩ := judge_gate (s := s.withGate gate) s.gate.view s.gate.pending view
      split_ifs
      · refine TurnOk.logged (ok_save ?_ fun _ _ _ _ hnext => nomatch hnext) trivial rfl
        exact hkept.alike (by rw [hgate]; exact .refl _) hsame
      · refine TurnOk.logged (ok_save ?_ fun _ _ _ _ hnext => nomatch hnext) trivial rfl
        exact hkept.alike (by rw [hgate]; exact .refl _) hsame

include h

theorem ok_onView (raw : Value) (generation : ℤ) (synchronized : Bool) :
    TurnOk log (onView env s raw generation synchronized) := by
  unfold onView
  split_ifs
  · exact ok_stay h
  · cases hparse : parsePlayerView env.cats raw with
    | error code =>
      cases haccept : jsAcceptView env.cats s.gate raw generation synchronized
      rcases acceptView_cases haccept with halike | ⟨view, hview, -⟩
      · exact ok_stay (h.alike halike rfl)
      · rw [hparse] at hview
        cases hview
    | ok view =>
      dsimp only
      split_ifs with hobserves hother hvalid hcolor
      · exact ok_stay (h.alike ⟨rfl, rfl, rfl⟩ rfl)
      · exact ok_stay h
      · exact ok_pause h
      · exact ok_pause (h.learn hother)
      · exact ok_offerView (h.learn hother) rfl hparse generation synchronized

theorem ok_onMoveAck (sent : Sent) (value : Option Value) : TurnOk log (onMoveAck s sent value) := by
  unfold onMoveAck
  cases value with
  | none => exact ok_persist (h.alike (alike_timeout _) rfl)
  | some raw =>
    dsimp only
    cases hack : jsAcknowledge s.gate sent.intent raw with
    | mk gate r =>
      have hcases := acknowledge_cases hack
      match r with
      | .error code =>
        rcases hcases with halike | ⟨hr, -⟩
        · exact ok_persist (h.alike (halike.trans (alike_timeout _)) rfl)
        · cases hr
      | .ok false =>
        rcases hcases with halike | ⟨hr, -⟩
        · exact ok_persist (h.alike halike rfl)
        · cases hr
      | .ok true =>
        have hrefused : Keeps (log ++ [.refused sent.intent]) (s.withGate gate) := by
          rcases hcases with halike | ⟨-, -, hpending, hview, hattempted⟩
          · exact Keeps.append (h.alike halike rfl) (by simp [Entry.quiet])
          · exact ⟨h.knows.refuse hpending hview hattempted, fun view hold => h.game view (hview ▸ hold)⟩
        dsimp only
        split
        · rename_i htaken
          rcases hcases with halike | ⟨-, hok, -⟩
          · exact ok_persist (h.alike halike rfl)
          · exact absurd htaken hok
        · exact TurnOk.logged (ok_persist (hrefused.alike (.refl _) rfl)) trivial (persist_log _)

/-! ## Runs -/

theorem ok_handle (e : Event) : TurnOk log (handle env s e) := by
  cases e with
  | connect epoch late =>
    simp only [handle]
    split_ifs
    · exact ok_onConnect h late
    · exact ok_stay h
  | disconnect epoch =>
    simp only [handle]
    split_ifs
    · exact ok_onDisconnect h
    · exact ok_stay h
  | matched payload fromMatch => exact ok_onMatch h payload fromMatch
  | view raw generation synchronized => exact ok_onView h raw generation synchronized
  | moveAck k value =>
    simp only [handle]
    split
    · exact ok_stay h
    · split_ifs
      · refine ok_onMoveAck ?_ _ value
        exact h.alike (.refl _) rfl
      · exact ok_stay (h.alike (.refl _) rfl)
  | drain => exact ok_drain h
  | pause => exact ok_pause h
  | finish =>
    refine ⟨Keeps.append h (by simp [handle]), by simp [handle], fun value next hsave => ?_⟩
    obtain ⟨rfl, rfl⟩ := hsave
    exact ⟨.inr rfl, fun _ _ _ _ hnext => nomatch hnext⟩

/-- What follows a save: the move is sent, or the session goes on as it does otherwise. -/
theorem resume_cases (late : Bool) (choice : Option Text) (next : Next) :
    TurnOk log (resume env s late choice next) ∨ ∃ intent fouls index epoch s', next = .send intent fouls index epoch ∧
      resume env s late choice next = ⟨s', [.move intent fouls], none⟩ ∧ s'.gate = s.gate ∧ s'.gameId = s.gameId := by
  cases next with
  | done => exact .inl (ok_stay h)
  | reconnected => exact .inl (ok_joinOrSync h true late)
  | think => exact .inl (ok_maybeMove h choice)
  | send intent fouls index epoch =>
    unfold resume
    dsimp only
    split_ifs
    · exact .inr ⟨intent, fouls, index, epoch, _, rfl, rfl, rfl, rfl⟩
    · exact .inl (ok_persist (h.alike (alike_timeout _) rfl))
  | close => exact .inl (ok_pause h)

omit h

def DiskOk (log : List Entry) : Stored → Prop
  | .empty => ∀ intent fouls, .move intent fouls ∉ log
  | .active c => Keeps log (restore c)
  | .finished => True

def ProcOk (log : List Entry) : Proc → Prop
  | .down => True
  | .idle s => Keeps log s
  | .saving s value next => Keeps log s ∧ Saves log s value next

structure Inv (w : World) : Prop where
  lawful : Lawful w.log
  disk : DiskOk w.log w.disk
  proc : ProcOk w.log w.proc

theorem DiskOk.append {disk : Stored} (h : DiskOk log disk) (hl : ∀ e ∈ l, e.quiet) : DiskOk (log ++ l) disk := by
  cases disk with
  | empty =>
    intro i n hmem
    rcases mem_append.mp hmem with hmem | hmem
    · exact h i n hmem
    · exact hl _ hmem
  | active c => exact Keeps.append h hl
  | finished => trivial

theorem Saves.disk {value : Stored} {next : Next} (hsaves : Saves log s value next) (h : Keeps log s) : DiskOk log value := by
  rcases hsaves.what with rfl | rfl
  · exact h.restore
  · trivial

theorem TurnOk.proc (h : TurnOk log t) : ProcOk (log ++ t.log) t.proc := by
  unfold Turn.proc
  split
  · exact h.keeps
  · rename_i value next hsave
    exact ⟨h.keeps, h.saves value next hsave⟩

/-- A save that is completed. -/
theorem inv_saved {s : Session} {value : Stored} {next : Next} (h : Inv w) (hproc : w.proc = .saving s value next)
    (late : Bool) (choice : Option Text) :
    Inv ⟨value, (resume env s late choice next).proc, w.log ++ .saved value :: (resume env s late choice next).log⟩ := by
  obtain ⟨hkeeps, hsaves⟩ : ProcOk w.log (.saving s value next) := hproc ▸ h.proc
  have hquiet : ∀ e ∈ [Entry.saved value], e.quiet := by simp [Entry.quiet]
  have hsaved : Keeps (w.log ++ [.saved value]) s := hkeeps.append hquiet
  rw [append_cons]
  rcases resume_cases hsaved late choice next with hturn | ⟨intent, fouls, index, epoch, s', rfl, hresume, hgate, hgame⟩
  · refine ⟨(h.lawful.append hquiet).append hturn.quiet, ?_, hturn.proc⟩
    exact ((hsaves.disk hkeeps).append hquiet).append hturn.quiet
  · obtain ⟨rfl, hready⟩ := hsaves.ready intent fouls index epoch rfl
    have hsent : Keeps (w.log ++ [.saved (.active s.checkpoint)] ++ [.move intent fouls]) s := by
      refine ⟨hsaved.knows.send ⟨hready.toFresh.append hquiet, hready.pending, hready.view, hready.attempted⟩, hkeeps.game⟩
    rw [hresume]
    refine ⟨(h.lawful.append hquiet).move ⟨hready.toFresh.append hquiet, s.checkpoint, ?_, hready.pending⟩, ?_, ?_⟩
    · exact mem_append_right _ mem_cons_self
    · exact hsent.restore
    · exact hsent.alike (hgate ▸ .refl _) hgame

theorem inv_next (h : Inv w) (input : Input) : Inv (World.next env w input) := by
  obtain ⟨disk, proc, log⟩ := w
  obtain ⟨hlawful, hdisk, hproc⟩ := h
  cases input with
  | start =>
    cases proc with
    | down =>
      cases disk with
      | empty => exact ⟨hlawful, hdisk, keeps_new hdisk⟩
      | active c => exact ⟨hlawful, hdisk, hdisk⟩
      | finished => exact ⟨hlawful, hdisk, hproc⟩
    | idle s => exact ⟨hlawful, hdisk, hproc⟩
    | saving s value next => exact ⟨hlawful, hdisk, hproc⟩
  | crash written =>
    cases proc with
    | down => exact ⟨hlawful, hdisk, trivial⟩
    | idle s => exact ⟨hlawful, hdisk, trivial⟩
    | saving s value next =>
      refine ⟨hlawful, ?_, trivial⟩
      cases written with
      | true => exact hproc.2.disk hproc.1
      | false => exact hdisk
  | socket connected =>
    cases proc with
    | down => exact ⟨hlawful, hdisk, hproc⟩
    | idle s => exact ⟨hlawful, hdisk, hproc.alike (.refl _) rfl⟩
    | saving s value next => exact ⟨hlawful, hdisk, hproc.1.alike (.refl _) rfl, hproc.2.what, hproc.2.ready⟩
  | connecting =>
    cases proc with
    | down => exact ⟨hlawful, hdisk, hproc⟩
    | idle s => exact ⟨hlawful, hdisk, hproc.alike (.refl _) rfl⟩
    | saving s value next => exact ⟨hlawful, hdisk, hproc.1.alike (.refl _) rfl, hproc.2.what, hproc.2.ready⟩
  | event e =>
    cases proc with
    | down => exact ⟨hlawful, hdisk, hproc⟩
    | idle s =>
      simp only [World.next]
      split_ifs
      · exact ⟨hlawful, hdisk, hproc⟩
      · have hturn : TurnOk log (handle env s e) := ok_handle hproc e
        exact ⟨hlawful.append hturn.quiet, hdisk.append hturn.quiet, hturn.proc⟩
    | saving s value next => exact ⟨hlawful, hdisk, hproc⟩
  | saved late choice =>
    cases proc with
    | down => exact ⟨hlawful, hdisk, hproc⟩
    | idle s => exact ⟨hlawful, hdisk, hproc⟩
    | saving s value next =>
      have h : Inv ⟨disk, .saving s value next, log⟩ := ⟨hlawful, hdisk, hproc⟩
      exact inv_saved h rfl late choice
  | failed written =>
    cases proc with
    | down => exact ⟨hlawful, hdisk, hproc⟩
    | idle s => exact ⟨hlawful, hdisk, hproc⟩
    | saving s value next =>
      refine ⟨hlawful, ?_, hproc.1.alike (.refl _) rfl⟩
      cases written with
      | true => exact hproc.2.disk hproc.1
      | false => exact hdisk

theorem inv_start : Inv World.start :=
  ⟨fun _ _ _ h => by simp [World.start] at h, fun _ _ h => by simp [World.start] at h, trivial⟩

theorem inv_run (inputs : List Input) (h : Inv w) : Inv (World.run env w inputs) := by
  induction inputs generalizing w with
  | nil => exact h
  | cons input inputs ih => exact ih (inv_next h input)

/-- In every run, of one process after the other, a move is sent after the checkpoint that has it pending was saved; it was not
sent before; an earlier move of its position was refused or cost a foul; and the queue is joined without a game. -/
theorem moves_once (env : Env) (inputs : List Input) : Lawful (World.run env .start inputs).log := (inv_run inputs inv_start).lawful

end Docich.BetaSession
