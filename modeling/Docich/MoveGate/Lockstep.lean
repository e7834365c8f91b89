import Docich.MoveGate.Gates

/-!
# The gates in lockstep

- `SameSide`: the two gates after the same calls;
- `plainCall`: a call on which the two readers of JSON and the two gates do the same;
- `call_same`: such a call is answered alike and keeps the sides the same;
- `blocked_js`, `blocked_py`: where no move can be prepared, none can until a view is accepted;
- `gates_alike`: runs of such calls.
-/

namespace Docich.MoveGate

open List Option Ranked

open Ranked (sortBy)
open Paired (Both Along along_of_inv foldl_of_along)

/-! ## Hands -/

/-- Counts over the roles in their order are one list when they are the same counts. -/
theorem counts_eq {counts counts' : List Count} (hroles : (counts.map Prod.fst).Sublist HAND_ROLES)
    (hroles' : (counts'.map Prod.fst).Sublist HAND_ROLES) (h : counts.Perm counts') : counts = counts' := by
  have horder : HAND_ROLES.Pairwise fun a b => HAND_ROLES.idxOf a < HAND_ROLES.idxOf b := by decide
  have hsorted : ∀ {l : List Count}, (l.map Prod.fst).Sublist HAND_ROLES →
      l.Pairwise fun a b => HAND_ROLES.idxOf a.1 < HAND_ROLES.idxOf b.1 := by
    intro l hl
    have hpair : (l.map Prod.fst).Pairwise fun a b => HAND_ROLES.idxOf a < HAND_ROLES.idxOf b := horder.sublist hl
    rwa [pairwise_map] at hpair
  refine Perm.eq_of_pairwise (fun a b _ _ hab hba => ?_) (hsorted hroles) (hsorted hroles') h
  exact absurd hab (Nat.lt_asymm hba)

def zeros (counts : List Count) : List Count := counts.filter (·.2 = 0)

/-- Hands that name the same roles with a count of zero are equal to the worker when they are to the module. -/
theorem hand_iff {view old : View} {view' old' : PlayerView} (h : SameView view view') (hold : SameView old old')
    (hzeros : zeros view'.hand = zeros old'.hand) : view.yourHand = old.yourHand ↔ view'.hand = old'.hand := by
  obtain ⟨counts, hjs, hpy, hroles, hpos⟩ := h.hand
  obtain ⟨counts', hjs', hpy', hroles', hpos'⟩ := hold.hand
  have hsame : ∀ {l : List Count}, (∀ c ∈ l, 0 ≤ c.2) → (l.filter fun c => !decide (0 < c.2)) = zeros l := by
    intro l hl
    refine filter_congr fun c hc => ?_
    have := hl c hc
    by_cases hzero : c.2 = 0
    · simp [hzero]
    · simp [hzero]
      omega
  constructor
  · intro heq
    rw [hjs, hjs'] at heq
    rw [hpy, hpy'] at hzeros ⊢
    have hzero : (zeros counts).Perm (zeros counts') := by
      have hl := (sortBy_perm toLex counts).filter (·.2 = 0)
      have hr := (sortBy_perm toLex counts').filter (·.2 = 0)
      exact hl.symm.trans ((Perm.of_eq hzeros).trans hr)
    refine sortBy_perm_eq ?_
    refine (filter_append_perm (fun c : Count => decide (0 < c.2)) counts).symm.trans (.trans ?_
      (filter_append_perm (fun c : Count => decide (0 < c.2)) counts'))
    rw [heq, hsame hpos, hsame hpos']
    exact hzero.append_left _
  · intro heq
    rw [hpy, hpy'] at heq
    have hperm : counts.Perm counts' :=
      (sortBy_perm toLex counts).symm.trans ((Perm.of_eq heq).trans (sortBy_perm toLex counts'))
    rw [hjs, hjs', counts_eq hroles hroles' hperm]

/-! ## The two sides -/

structure SameIntent (intent : Intent) (intent' : MoveIntent) : Prop where
  sequence : intent.sequence = intent'.sequence
  generation : intent.generation = intent'.generation
  game_id : intent.gameId = intent'.position.1
  move_number : intent.moveNumber = intent'.position.2.2
  usi : intent.usi = intent'.usi
  payload : intent.payload = intent'.payload

structure SameGate (g : JsGate) (g' : PyGate) : Prop where
  generation : g.generation = g'.generation
  connected : g.connected = g'.connected
  needsSync : g.needsSync = g'.needsSync
  quiescing : g.quiescing = g'.quiescing
  view : Option.Rel SameView g.view g'.view
  pending : Option.Rel SameIntent g.pending g'.pending
  sequence : g.sequence = g'.sequence
  ackedSequence : g.ackedSequence = g'.ackedSequence
  attempted : g.attempted = g'.attempted
  foulFloor : g.foulFloor = g'.foulFloor

structure SameSide (s : JsSide) (s' : PySide) : Prop where
  gate : SameGate s.gate s'.gate
  issued : List.Forall₂ SameIntent s.issued s'.issued
  known : ∀ i, s.gate.pending = some i → i ∈ s.issued
  known' : ∀ i, s'.gate.pending = some i → i ∈ s'.issued
  bound : ∀ i ∈ s.issued, i.sequence ≤ s.gate.sequence
  distinct : ∀ i ∈ s.issued, ∀ j ∈ s.issued, i.sequence = j.sequence → i = j
  distinct' : ∀ i ∈ s'.issued, ∀ j ∈ s'.issued, i.sequence = j.sequence → i = j

def SameReply : Reply Intent → Reply MoveIntent → Prop
  | .done, .done => True
  | .flag b, .flag b' => b = b'
  | .number n, .number n' => n = n'
  | .intent i, .intent i' => SameIntent i i'
  | _, _ => False

variable {α β : Type} {R : α → β → Prop} {a : Option α} {b : Option β} {p : View → Bool}
    {q : PlayerView → Bool}

theorem rel_cases (h : Option.Rel R a b) :
    (a = none ∧ b = none) ∨ ∃ x y, a = some x ∧ b = some y ∧ R x y := by
  cases h with
  | some h => exact .inr ⟨_, _, rfl, rfl, h⟩
  | none => exact .inl ⟨rfl, rfl⟩

theorem rel_isNone (h : Option.Rel R a b) :
    a.isNone = b.isNone := by
  cases h <;> rfl

theorem rel_isSome (h : Option.Rel R a b) :
    a.isSome = b.isSome := by
  cases h <;> rfl

theorem any_rel {a : Option View} {b : Option PlayerView}
    (h : Option.Rel SameView a b) (hpq : ∀ v v', SameView v v' → p v = q v') : a.any p = b.any q := by
  cases h with
  | some h => exact hpq _ _ h
  | none => rfl

theorem all_rel {a : Option View} {b : Option PlayerView}
    (h : Option.Rel SameView a b) (hpq : ∀ v v', SameView v v' → p v = q v') : a.all p = b.all q := by
  cases h with
  | some h => exact hpq _ _ h
  | none => rfl

section Gate

variable {g : JsGate} {g' : PyGate}

variable (h : SameGate g g')

include h

theorem moveView_same : Option.Rel SameView (jsMoveView g) (pyMoveView g') := by
  unfold jsMoveView pyMoveView
  rw [h.connected, h.needsSync, rel_isNone h.pending]
  rcases rel_cases h.view with ⟨hnone, hnone'⟩ | ⟨v, v', hv, hv', hsame⟩
  · rw [hnone, hnone']
    exact .none
  · rw [hv, hv', filter_some, filter_some, hsame.status, hsame.turn, hsame.color, hsame.fouls]
    split
    · exact .some hsame
    · exact .none

theorem canMove_same : jsCanMove g = pyCanMove g' := rel_isSome (moveView_same h)

theorem canJoinQueue_same : jsCanJoinQueue g = pyCanJoinQueue g' := by
  unfold jsCanJoinQueue pyCanJoinQueue
  rw [h.connected, h.needsSync, h.quiescing, rel_isNone h.pending, all_rel h.view fun v v' hv => by rw [hv.status]]

omit h

variable {view : View} {view' : PlayerView} {raw : Value}

theorem newer_same (hview : Option.Rel SameView g.view g'.view) (h : SameView view view')
    (hzeros : g'.view.all (fun old => !(old.game_id = view'.game_id && old.move_number = view'.move_number) ||
      zeros view'.hand = zeros old.hand) = true) : jsNewer g.view view = pyNewer g'.view view' := by
  rcases rel_cases hview with ⟨hnone, hnone'⟩ | ⟨old, old', hold, hold', hsame⟩
  · rw [hnone, hnone']
    rfl
  · rw [hold'] at hzeros
    rw [hold, hold']
    simp only [jsNewer, pyNewer, hsame.game_id, hsame.color, hsame.move_number, hsame.fouls, hsame.status, hsame.turn,
      hsame.pieces, h.game_id, h.color, h.move_number, h.fouls, h.status, h.turn, h.pieces]
    by_cases hgame : old'.game_id = view'.game_id
    · by_cases hmove : view'.move_number = old'.move_number
      · have hz : zeros view'.hand = zeros old'.hand := by simpa [hgame, hmove] using hzeros
        have hconflict : (view'.turn ≠ old'.turn ∨ view'.pieces ≠ old'.pieces ∨ view.yourHand ≠ old.yourHand) ↔
            (view'.pieces, view'.hand, view'.turn) ≠ (old'.pieces, old'.hand, old'.turn) := by
          rw [ne_eq view.yourHand, hand_iff h hsame hz]
          simp only [ne_eq, Prod.mk.injEq]
          tauto
        simp only [hconflict]
      · simp [hmove]
    · simp [hgame]

include h

theorem gate_take (hv : SameView view view') (you : ℤ)
    (advanced cleared : Bool) : SameGate (g.take view you advanced cleared) (g'.take view' you advanced cleared) where
  generation := h.generation
  connected := h.connected
  needsSync := rfl
  quiescing := h.quiescing
  view := .some hv
  pending := by
    unfold Gate.take
    cases advanced || cleared with
    | true => exact .none
    | false => exact h.pending
  sequence := h.sequence
  ackedSequence := h.ackedSequence
  attempted := by simp only [Gate.take, h.attempted]
  foulFloor := by simp only [Gate.take, h.foulFloor]

theorem take_same (hv : SameView view view') (synchronized : Bool) :
    SameGate (jsTake g view synchronized).1 (pyTake g' view' synchronized).1 ∧
      (jsTake g view synchronized).2 = (pyTake g' view' synchronized).2 := by
  have hgame : g.view.any (fun old => decide (old.gameId = view.gameId)) =
      g'.view.any (fun old => decide (old.game_id = view'.game_id)) :=
    any_rel h.view fun o o' ho => by rw [ho.game_id, hv.game_id]
  have hadvanced : g.view.all (fun old => decide (old.gameId ≠ view.gameId) || decide (old.moveNumber < view.moveNumber)) =
      g'.view.all (fun old => decide (old.game_id ≠ view'.game_id) || decide (old.move_number < view'.move_number)) :=
    all_rel h.view fun o o' ho => by rw [ho.game_id, hv.game_id, ho.move_number, hv.move_number]
  have hfoul : g.view.any (fun old => decide (old.gameId = view.gameId) && decide (old.fouls.you < view.fouls.you)) =
      g'.view.any (fun old => decide (old.game_id = view'.game_id) && decide (old.fouls.you < view'.fouls.you)) :=
    any_rel h.view fun o o' ho => by rw [ho.game_id, hv.game_id, ho.fouls, hv.fouls]
  unfold jsTake pyTake
  dsimp only
  rw [hgame, hadvanced, hfoul, h.needsSync, h.foulFloor, hv.fouls, hv.status]
  split
  · exact ⟨h, rfl⟩
  · split
    · exact ⟨h, rfl⟩
    · exact ⟨gate_take h hv _ _ _, rfl⟩

omit h

/-! ## Calls that both do alike -/

/-- Where the view is of the position before, the two name the same roles with a count of zero. -/
def sameZeros (cats : Categories) (old : Option PlayerView) (raw : Value) : Bool :=
  match parse cats raw with
  | .ok view => old.all fun old =>
    !(old.game_id = view.game_id && old.move_number = view.move_number) || zeros view.hand = zeros old.hand
  | .error _ => true

theorem acceptView_same (cats : Categories) (h : SameGate g g') {generation : ℤ} (synchronized : Bool)
    (hplain : generation = g.generation → g.connected = true → plainView raw = true ∧ sameZeros cats g'.view raw = true) :
    SameGate (jsAcceptView cats g raw generation synchronized).1 (pyAcceptView cats g' raw generation synchronized).1 ∧
      (jsAcceptView cats g raw generation synchronized).2 = (pyAcceptView cats g' raw generation synchronized).2 := by
  unfold jsAcceptView pyAcceptView
  rw [h.generation, h.connected] at *
  by_cases hcurrent : generation ≠ g'.generation ∨ g'.connected = false
  · rw [if_pos hcurrent, if_pos hcurrent]
    exact ⟨h, rfl⟩
  rw [if_neg hcurrent, if_neg hcurrent]
  rw [not_or, not_not, Bool.not_eq_false] at hcurrent
  obtain ⟨hview, hzeros⟩ := hplain hcurrent.1 hcurrent.2
  have hsync : SameGate { g with needsSync := true } { g' with needsSync := true } := { h with needsSync := rfl }
  have hnone : SameGate { g with needsSync := false } { g' with needsSync := false } := { h with needsSync := rfl }
  by_cases hnull : raw = .null
  · subst hnull
    simp only [jsAcceptCurrentView, pyAcceptCurrentView]
    rw [any_rel h.view fun v v' hv => by rw [hv.status], rel_isSome h.pending]
    split
    · exact ⟨hsync, rfl⟩
    · exact ⟨hnone, rfl⟩
  · unfold pyAcceptCurrentView
    split
    · exact absurd rfl hnull
    unfold jsAcceptCurrentView
    split
    · exact absurd rfl hnull
    have hparse := parse_same cats hview
    unfold sameZeros at hzeros
    cases hp : parsePlayerView cats raw with
    | error code =>
      cases hp' : parse cats raw with
      | error code' =>
        rw [hp, hp'] at hparse
        cases hparse
        exact ⟨hsync, rfl⟩
      | ok view' =>
        rw [hp, hp'] at hparse
        cases hparse
    | ok view =>
      cases hp' : parse cats raw with
      | error code' =>
        rw [hp, hp'] at hparse
        cases hparse
      | ok view' =>
        rw [hp, hp'] at hparse
        rw [hp'] at hzeros
        simp only [newer_same h.view hparse hzeros]
        cases pyNewer g'.view view' with
        | error code => exact ⟨hsync, rfl⟩
        | ok newer =>
          cases newer with
          | false => exact ⟨h, rfl⟩
          | true =>
            obtain ⟨hgate, hflag⟩ := take_same h hparse synchronized
            exact ⟨hgate, congrArg Except.ok hflag⟩

/-- An acknowledgement on which the two readers agree: no float for a count, and an error that says which. -/
def plainAck (raw : Value) : Bool :=
  match raw with
  | .object raw => !isWholeFloat (get raw foulCountKey) &&
      (stringOf (get raw reasonKey) ≠ some errorKey || (stringOf (get raw errorKey)).isSome)
  | _ => true

theorem ack_same (you : Option ℤ) (h : plainAck raw = true) : jsAck you raw = pyAck you raw := by
  cases raw with
  | object raw =>
    simp only [plainAck, Bool.and_eq_true, Bool.not_eq_true', Bool.or_eq_true, decide_eq_true_eq] at h
    have herror : (stringOf (get raw reasonKey) = some errorKey ∧ (stringOf (get raw errorKey)).isSome) ↔
        stringOf (get raw reasonKey) = some errorKey := by
      refine ⟨fun h => h.1, fun hreason => ⟨hreason, h.2.resolve_left fun hne => hne hreason⟩⟩
    simp only [jsAck, pyAck, fieldsOf, bind, Except.bind, integer_eq h.1 .invalid_ack (show (0 : ℤ) ≤ 1 by decide) (show (10 : ℤ) ≤ MAX_INTEGER by decide), herror]
  | null | bool | int | float | string | array => rfl

/-- The acknowledgement is valid, or the gate waits for a view already. -/
def validAck (g : JsGate) (raw : Value) : Bool :=
  g.needsSync || (jsAck (g.view.map fun view => view.fouls.you) raw).isOk

include h

theorem acknowledged_same (sequence : ℤ) (ack : Ack) :
    SameGate (g.acknowledged sequence ack) (g'.acknowledged sequence ack) := by
  cases ack with
  | taken => exact { h with ackedSequence := rfl, needsSync := rfl }
  | foul count => exact { h with ackedSequence := rfl, needsSync := rfl, foulFloor := rfl, pending := .none }
  | error => exact { h with ackedSequence := rfl, needsSync := rfl, pending := .none }

theorem acknowledge_same {intent : Intent} {intent' : MoveIntent} (hintent : SameIntent intent intent')
    (hpending : g.pending = some intent ↔ g'.pending = some intent')
    (hplain : g.pending = some intent → plainAck raw = true ∧ validAck g raw = true) :
    SameGate (jsAcknowledge g intent raw).1 (pyAcknowledge g' intent' raw).1 ∧
      (jsAcknowledge g intent raw).2 = (pyAcknowledge g' intent' raw).2 := by
  unfold jsAcknowledge pyAcknowledge
  have hguard : (g.connected = false ∨ g.pending ≠ some intent ∨ intent.generation ≠ g.generation ∨
      intent.sequence = g.ackedSequence) ↔ (g'.connected = false ∨ intent'.generation ≠ g'.generation ∨
      g'.pending ≠ some intent' ∨ intent'.sequence = g'.ackedSequence) := by
    rw [h.connected, h.generation, h.ackedSequence, hintent.generation, hintent.sequence, ne_eq g.pending, hpending]
    tauto
  by_cases hcurrent : g.connected = false ∨ g.pending ≠ some intent ∨ intent.generation ≠ g.generation ∨
      intent.sequence = g.ackedSequence
  · rw [if_pos hcurrent, if_pos (hguard.mp hcurrent)]
    exact ⟨h, rfl⟩
  rw [if_neg hcurrent, if_neg (mt hguard.mpr hcurrent)]
  obtain ⟨hack, hvalid⟩ := hplain (by tauto)
  have hyou : (g.view.map fun view => view.fouls.you) = g'.view.map fun view => view.fouls.you := by
    rcases rel_cases h.view with ⟨hv, hv'⟩ | ⟨v, v', hv, hv', hsame⟩
    · rw [hv, hv']
      rfl
    · rw [hv, hv', map_some, map_some, hsame.fouls]
  rw [← ack_same _ hack, ← hyou]
  unfold validAck at hvalid
  cases hjs : jsAck (g.view.map fun view => view.fouls.you) raw with
  | error code =>
    have hsync : g.needsSync = true := by simpa [hjs, Except.isOk, Except.toBool] using hvalid
    exact ⟨{ h with needsSync := hsync.symm.trans h.needsSync }, rfl⟩
  | ok ack =>
    simp only [hintent.sequence]
    exact ⟨acknowledged_same h _ ack, trivial⟩

end Gate

/-! ## Sides -/

section Side

variable {s : JsSide} {s' : PySide}

theorem sameSide_new : SameSide (Side.new View Intent) (Side.new PlayerView MoveIntent) where
  gate := ⟨rfl, rfl, rfl, rfl, .none, .none, rfl, rfl, rfl, rfl⟩
  issued := .nil
  known := nofun
  known' := nofun
  bound := nofun
  distinct := nofun
  distinct' := nofun

/-- A call that issues no intent keeps one pending or drops it. -/
theorem sameSide_gate (h : SameSide s s') {g : JsGate} {g' : PyGate} (hg : SameGate g g')
    (hsequence : g.sequence = s.gate.sequence) (hpending : g.pending = s.gate.pending ∨ g.pending = none)
    (hpending' : g'.pending = s'.gate.pending ∨ g'.pending = none) : SameSide { s with gate := g } { s' with gate := g' } where
  gate := hg
  issued := h.issued
  known i hi := by
    rcases hpending with hp | hp
    · exact h.known i (hp.symm.trans hi)
    · cases hp.symm.trans hi
  known' i hi := by
    rcases hpending' with hp | hp
    · exact h.known' i (hp.symm.trans hi)
    · cases hp.symm.trans hi
  bound i hi := (h.bound i hi).trans hsequence.ge
  distinct := h.distinct
  distinct' := h.distinct'

/-- Both gates return an intent at one place, and have it pending or not. -/
theorem issued_same (h : SameSide s s') (k : ℕ) :
    (s.issued[k]? = none ∧ s'.issued[k]? = none) ∨ ∃ i i', s.issued[k]? = some i ∧ s'.issued[k]? = some i' ∧
      SameIntent i i' ∧ (s.gate.pending = some i ↔ s'.gate.pending = some i') := by
  by_cases hk : k < s.issued.length
  · have hk' : k < s'.issued.length := h.issued.length_eq ▸ hk
    have hsame : SameIntent s.issued[k] s'.issued[k] := h.issued.get hk hk'
    refine .inr ⟨_, _, List.getElem?_eq_getElem hk, List.getElem?_eq_getElem hk', hsame, ?_⟩
    constructor
    · intro hp
      rcases rel_cases h.gate.pending with ⟨hnone, -⟩ | ⟨j, j', hj, hj', hjj⟩
      · cases hnone.symm.trans hp
      · cases hj.symm.trans hp
        rw [hj', h.distinct' j' (h.known' j' hj') _ (getElem_mem hk') (hjj.sequence.symm.trans hsame.sequence)]
    · intro hp
      rcases rel_cases h.gate.pending with ⟨-, hnone⟩ | ⟨j, j', hj, hj', hjj⟩
      · cases hnone.symm.trans hp
      · cases hj'.symm.trans hp
        rw [hj, h.distinct j (h.known j hj) _ (getElem_mem hk) (hjj.sequence.trans hsame.sequence.symm)]
  · have hk' : ¬ k < s'.issued.length := h.issued.length_eq ▸ hk
    exact .inl ⟨List.getElem?_eq_none (by omega), List.getElem?_eq_none (by omega)⟩

/-- A call on which the gates do the same. -/
def plainCall (cats : Categories) (s : JsSide) (s' : PySide) : Call → Prop
  | .newConnection => s.gate.generation < MAX_INTEGER
  | .acceptView raw generation _ => generation = s.gate.generation → s.gate.connected = true →
      plainView raw = true ∧ sameZeros cats s'.gate.view raw = true
  | .prepareMove _ => s.gate.sequence < MAX_INTEGER
  | .acknowledge intent raw => s.gate.pending ≠ none → s.gate.pending = s.issued[intent]? →
      plainAck raw = true ∧ validAck s.gate raw = true
  | _ => True

theorem both_map_flag {x : Result Bool} : Both SameReply (x.map .flag) (x.map .flag) := by
  cases x with
  | ok b => exact rfl
  | error code => exact rfl

end Side

/-! ## What a call can do to a gate -/

section Calls

variable {V I : Type}

/-- What a view can do to a gate. -/
inductive Accepts (g : Gate V I) : Gate V I → Result Bool → Prop
  | stale : Accepts g g (.ok false)
  | unsure {r : Result Bool} (h : r ≠ .ok true) : Accepts g { g with needsSync := true } r
  | none : Accepts g { g with needsSync := false } (.ok true)
  | taken (view : V) (you : ℤ) (advanced cleared : Bool) : Accepts g (g.take view you advanced cleared) (.ok true)

theorem jsAcceptView_accepts (cats : Categories) (g : JsGate) (raw : Value) (generation : ℤ) (synchronized : Bool) :
    Accepts g (jsAcceptView cats g raw generation synchronized).1 (jsAcceptView cats g raw generation synchronized).2 := by
  unfold jsAcceptView
  split
  · exact .stale
  · unfold jsAcceptCurrentView
    split
    · split
      · exact .unsure nofun
      · exact .none
    · split
      · exact .unsure nofun
      · next view _ =>
        split
        · exact .unsure nofun
        · exact .stale
        · unfold jsTake
          dsimp only
          split
          · exact .stale
          · split
            · exact .stale
            · exact .taken view _ _ _

theorem pyAcceptView_accepts (cats : Categories) (g : PyGate) (raw : Value) (generation : ℤ) (synchronized : Bool) :
    Accepts g (pyAcceptView cats g raw generation synchronized).1 (pyAcceptView cats g raw generation synchronized).2 := by
  unfold pyAcceptView
  split
  · exact .stale
  · unfold pyAcceptCurrentView
    split
    · split
      · exact .unsure nofun
      · exact .none
    · split
      · exact .unsure nofun
      · next view _ =>
        split
        · exact .unsure nofun
        · exact .stale
        · unfold pyTake
          dsimp only
          split
          · exact .stale
          · split
            · exact .stale
            · exact .taken view _ _ _

variable {g g' : Gate V I} {r : Result Bool}

theorem Accepts.sequence (h : Accepts g g' r) : g'.sequence = g.sequence := by
  cases h <;> rfl

theorem Accepts.pending (h : Accepts g g' r) : g'.pending = g.pending ∨ g'.pending = .none := by
  cases h with
  | stale | unsure | none => exact .inl rfl
  | taken view you advanced cleared =>
    unfold Gate.take
    cases advanced || cleared with
    | true => exact .inr rfl
    | false => exact .inl rfl

/-- A view that is not accepted leaves the gate, or has it wait for another. -/
theorem Accepts.refused (h : Accepts g g' r) (hr : r ≠ .ok true) : g' = g ∨ g'.needsSync = true := by
  cases h with
  | stale => exact .inl rfl
  | unsure => exact .inr rfl
  | none | taken => exact absurd rfl hr

theorem Accepts.raised {code : ProtocolError} (h : Accepts g g' (.error code)) : g'.needsSync = true := by
  cases h
  rfl

/-- What an acknowledgement can do to a gate. -/
inductive Acknowledges (g : Gate V I) : Gate V I → Result Bool → Prop
  | stale : Acknowledges g g (.ok false)
  | unsure (code : ProtocolError) : Acknowledges g { g with needsSync := true } (.error code)
  | ambiguous (code : ProtocolError) (h : g.pending.isSome) : Acknowledges g g (.error code)
  | settled (sequence : ℤ) (ack : Ack) : Acknowledges g (g.acknowledged sequence ack) (.ok true)

theorem jsAcknowledge_acknowledges (g : JsGate) (intent : Intent) (raw : Value) :
    Acknowledges g (jsAcknowledge g intent raw).1 (jsAcknowledge g intent raw).2 := by
  unfold jsAcknowledge
  split
  · exact .stale
  · split
    · exact .unsure _
    · exact .settled _ _

theorem pyAcknowledge_acknowledges (g : PyGate) (intent : MoveIntent) (raw : Value) :
    Acknowledges g (pyAcknowledge g intent raw).1 (pyAcknowledge g intent raw).2 := by
  unfold pyAcknowledge
  split
  · exact .stale
  · next h =>
    simp only [not_or, not_not] at h
    split
    · exact .ambiguous _ (by rw [h.2.2.1]; rfl)
    · exact .settled _ _

variable (h : Acknowledges g g' r)

include h

theorem Acknowledges.sequence : g'.sequence = g.sequence := by
  cases h with
  | stale | unsure | ambiguous => rfl
  | settled sequence ack => cases ack <;> rfl

theorem Acknowledges.pending : g'.pending = g.pending ∨ g'.pending = none := by
  cases h with
  | stale | unsure | ambiguous => exact .inl rfl
  | settled sequence ack =>
    cases ack with
    | taken => exact .inl rfl
    | foul | error => exact .inr rfl

theorem Acknowledges.waits : g' = g ∨ g'.needsSync = true := by
  cases h with
  | stale | ambiguous => exact .inl rfl
  | unsure => exact .inr rfl
  | settled sequence ack => cases ack <;> exact .inr rfl

omit h

theorem Acknowledges.raised {code : ProtocolError} (h : Acknowledges g g' (.error code)) :
    g'.needsSync = true ∨ g'.pending.isSome = true := by
  cases h with
  | unsure => exact .inl rfl
  | ambiguous _ h => exact .inr h

theorem disconnect_waits (g : Gate V I) (generation : ℤ) :
    g.disconnect generation = g ∨ (g.disconnect generation).needsSync = true := by
  unfold Gate.disconnect
  split
  · exact .inr rfl
  · exact .inl rfl

theorem timeout_waits [DecidableEq I] (g : Gate V I) (intent : I) : g.timeout intent = g ∨ (g.timeout intent).needsSync = true := by
  unfold Gate.timeout
  split
  · exact .inr rfl
  · exact .inl rfl

end Calls

/-! ## Calls in lockstep -/

section Lockstep

variable {s : JsSide} {s' : PySide} {intent : Intent} {intent' : MoveIntent}

theorem attempt_same (h : SameGate s.gate s'.gate) (hintent : SameIntent intent intent')
    (usi : Text) : SameGate (s.gate.attempt intent usi) (s'.gate.attempt intent' usi) :=
  { h with
    sequence := congrArg (· + 1) h.sequence
    attempted := congrArg (· ++ [usi]) h.attempted
    pending := .some hintent }

theorem sameSide_attempt (h : SameSide s s') (hintent : SameIntent intent intent')
    (hsequence : intent.sequence = s.gate.sequence + 1) (usi : Text) :
    SameSide ⟨s.gate.attempt intent usi, s.issued ++ [intent]⟩ ⟨s'.gate.attempt intent' usi, s'.issued ++ [intent']⟩ := by
  have hbound' : ∀ i ∈ s'.issued, i.sequence ≤ s.gate.sequence := by
    intro i' hi'
    obtain ⟨k, hk', rfl⟩ := getElem_of_mem hi'
    have hk : k < s.issued.length := h.issued.length_eq ▸ hk'
    have hsame : SameIntent s.issued[k] s'.issued[k] := h.issued.get hk hk'
    rw [← hsame.sequence]
    exact h.bound _ (getElem_mem hk)
  exact {
    gate := attempt_same h.gate hintent usi
    issued := rel_append h.issued (.cons hintent .nil)
    known := fun i hi => by
      cases hi
      exact mem_append_right _ (mem_singleton_self _)
    known' := fun i hi => by
      cases hi
      exact mem_append_right _ (mem_singleton_self _)
    bound := fun i hi => by
      change i.sequence ≤ s.gate.sequence + 1
      rcases mem_append.mp hi with hi | hi
      · have := h.bound i hi
        omega
      · rw [mem_singleton.mp hi, hsequence]
    distinct := fun i hi j hj hij => by
      rcases mem_append.mp hi with hi | hi <;> rcases mem_append.mp hj with hj | hj
      · exact h.distinct i hi j hj hij
      · rw [mem_singleton.mp hj, hsequence] at hij
        have := h.bound i hi
        omega
      · rw [mem_singleton.mp hi, hsequence] at hij
        have := h.bound j hj
        omega
      · rw [mem_singleton.mp hi, mem_singleton.mp hj]
    distinct' := fun i hi j hj hij => by
      rcases mem_append.mp hi with hi | hi <;> rcases mem_append.mp hj with hj | hj
      · exact h.distinct' i hi j hj hij
      · rw [mem_singleton.mp hj, ← hintent.sequence, hsequence] at hij
        have := hbound' i hi
        omega
      · rw [mem_singleton.mp hi, ← hintent.sequence, hsequence] at hij
        have := hbound' j hj
        omega
      · rw [mem_singleton.mp hi, mem_singleton.mp hj] }

theorem prepareMove_same (cats : Categories) (h : SameSide s s') (usi : Value) (hplain : s.gate.sequence < MAX_INTEGER) :
    SameSide (jsCall cats s (.prepareMove usi)).1 (pyCall cats s' (.prepareMove usi)).1 ∧
      Both SameReply (jsCall cats s (.prepareMove usi)).2 (pyCall cats s' (.prepareMove usi)).2 := by
  simp only [jsCall, pyCall, jsPrepareMove, pyPrepareMove]
  have hview := moveView_same h.gate
  rcases rel_cases hview with ⟨hnone, hnone'⟩ | ⟨v, v', hv, hv', hsame⟩
  · rw [hnone, hnone']
    exact ⟨h, rfl⟩
  rw [hv, hv']
  cases usiOf usi with
  | none => exact ⟨h, rfl⟩
  | some usi =>
    simp only [h.gate.attempted]
    by_cases hattempted : usi ∈ s'.gate.attempted
    · simp only [if_pos hattempted]
      exact ⟨h, rfl⟩
    · simp only [if_neg hattempted, if_neg (show ¬ MAX_INTEGER < s.gate.sequence + 1 by omega)]
      have hintent : SameIntent (makeIntent (s.gate.sequence + 1) s.gate.generation v usi)
          ⟨s'.gate.sequence + 1, s'.gate.generation, (v'.game_id, v'.color, v'.move_number), usi⟩ := {
        sequence := congrArg (· + 1) h.gate.sequence
        generation := h.gate.generation
        game_id := hsame.game_id
        move_number := hsame.move_number
        usi := rfl
        payload := congrArg (·, usi) hsame.game_id }
      exact ⟨sameSide_attempt h hintent rfl usi, hintent⟩

/-- **Calls.** A plain call is answered alike and leaves the two sides the same. -/
theorem call_same (cats : Categories) (h : SameSide s s') {c : Call} (hplain : plainCall cats s s' c) :
    SameSide (jsCall cats s c).1 (pyCall cats s' c).1 ∧ Both SameReply (jsCall cats s c).2 (pyCall cats s' c).2 := by
  cases c with
  | newConnection =>
    have hsmall : ¬ MAX_INTEGER < s.gate.generation + 1 := by
      have : s.gate.generation < MAX_INTEGER := hplain
      omega
    have hnext : s.gate.generation + 1 = s'.gate.generation + 1 := congrArg (· + 1) h.gate.generation
    simp only [jsCall, pyCall, if_neg hsmall]
    exact ⟨sameSide_gate h { h.gate with generation := hnext, connected := rfl, needsSync := rfl } rfl (.inl rfl) (.inl rfl),
      hnext⟩
  | disconnect generation =>
    refine ⟨?_, trivial⟩
    simp only [jsCall, pyCall, Gate.disconnect, h.gate.generation]
    split
    · exact sameSide_gate h { h.gate with generation := rfl, connected := rfl, needsSync := rfl } rfl (.inl rfl) (.inl rfl)
    · exact h
  | acceptView raw generation synchronized =>
    obtain ⟨hgate, hreply⟩ := acceptView_same cats h.gate synchronized hplain
    have hjs := jsAcceptView_accepts cats s.gate raw generation synchronized
    have hpy := pyAcceptView_accepts cats s'.gate raw generation synchronized
    refine ⟨sameSide_gate h hgate hjs.sequence hjs.pending hpy.pending, ?_⟩
    simp only [jsCall, pyCall, hreply]
    exact both_map_flag
  | prepareMove usi => exact prepareMove_same cats h usi hplain
  | acknowledge intent raw =>
    simp only [plainCall] at hplain
    rcases issued_same h intent with ⟨hnone, hnone'⟩ | ⟨i, i', hi, hi', hintent, hpending⟩
    · simp only [jsCall, pyCall, hnone, hnone']
      exact ⟨h, trivial⟩
    · rw [hi] at hplain
      obtain ⟨hgate, hreply⟩ := acknowledge_same h.gate hintent hpending fun hp => hplain (by simp [hp]) hp
      have hjs := jsAcknowledge_acknowledges s.gate i raw
      have hpy := pyAcknowledge_acknowledges s'.gate i' raw
      simp only [jsCall, pyCall, hi, hi']
      refine ⟨sameSide_gate h hgate hjs.sequence hjs.pending hpy.pending, ?_⟩
      rw [hreply]
      exact both_map_flag
  | timeout intent =>
    rcases issued_same h intent with ⟨hnone, hnone'⟩ | ⟨i, i', hi, hi', hintent, hpending⟩
    · simp only [jsCall, pyCall, hnone, hnone']
      exact ⟨h, trivial⟩
    · simp only [jsCall, pyCall, hi, hi', Gate.timeout, hpending]
      refine ⟨?_, trivial⟩
      split
      · exact sameSide_gate h { h.gate with needsSync := rfl } rfl (.inl rfl) (.inl rfl)
      · exact h
  | requestQuiesce =>
    exact ⟨sameSide_gate h { h.gate with quiescing := rfl } rfl (.inl rfl) (.inl rfl), trivial⟩

end Lockstep

/-! ## Moves after a call that raises -/

section Blocked

variable (cats : Categories)

/-- The call is no view that was accepted. -/
def NoView {I : Type} (c : Call) (r : Result (Reply I)) : Prop :=
  ∀ raw generation synchronized, c = .acceptView raw generation synchronized → r ≠ .ok (.flag true)

theorem jsCanMove_waits {g : JsGate} (h : g.needsSync = true ∨ g.pending.isSome = true) : jsCanMove g = false := by
  unfold jsCanMove jsMoveView
  rw [isSome_eq_false_iff, isNone_iff_eq_none, filter_eq_none_iff]
  intro v _
  rcases h with h | h
  · simp [h]
  · simp [isNone_eq_false_iff.mpr h]

theorem pyCanMove_waits {g : PyGate} (h : g.needsSync = true ∨ g.pending.isSome = true) : pyCanMove g = false := by
  unfold pyCanMove pyMoveView
  rw [isSome_eq_false_iff, isNone_iff_eq_none, filter_eq_none_iff]
  intro v _
  rcases h with h | h
  · simp [h]
  · simp [isNone_eq_false_iff.mpr h]

variable {I : Type} {r : Result Bool} {code : ProtocolError} {s : JsSide} {c : Call}

theorem map_flag_ne (h : r.map (Reply.flag : Bool → Reply I) ≠ .ok (.flag true)) : r ≠ .ok true := by
  rintro rfl
  exact h rfl

theorem map_flag_error (h : r.map (Reply.flag : Bool → Reply I) = .error code) : r = .error code := by
  cases r with
  | ok b => cases h
  | error code' =>
    cases h
    rfl

/-- Where no move can be prepared, none can until a view is accepted. -/
theorem blocked_js (h : jsCanMove s.gate = false) (hc : NoView c (jsCall cats s c).2) :
    jsCanMove (jsCall cats s c).1.gate = false := by
  have hstays : ∀ g : JsGate, g = s.gate ∨ g.needsSync = true → jsCanMove g = false := by
    rintro g (rfl | hg)
    · exact h
    · exact jsCanMove_waits (.inl hg)
  cases c with
  | newConnection =>
    simp only [jsCall]
    split
    · exact h
    · exact jsCanMove_waits (.inl rfl)
  | disconnect generation => exact hstays _ (disconnect_waits s.gate generation)
  | acceptView raw generation synchronized =>
    exact hstays _ ((jsAcceptView_accepts cats s.gate raw generation synchronized).refused (map_flag_ne (hc _ _ _ rfl)))
  | prepareMove usi =>
    have hnone : jsMoveView s.gate = none := by
      unfold jsCanMove at h
      rwa [isSome_eq_false_iff, isNone_iff_eq_none] at h
    simp only [jsCall, jsPrepareMove, hnone]
    exact h
  | acknowledge intent raw =>
    simp only [jsCall]
    split
    · exact h
    · next i _ => exact hstays _ (jsAcknowledge_acknowledges s.gate i raw).waits
  | timeout intent =>
    simp only [jsCall]
    split
    · exact h
    · next i _ => exact hstays _ (timeout_waits s.gate i)
  | requestQuiesce => exact h

theorem blocked_py {s : PySide} (h : pyCanMove s.gate = false) (hc : NoView c (pyCall cats s c).2) :
    pyCanMove (pyCall cats s c).1.gate = false := by
  have hstays : ∀ g : PyGate, g = s.gate ∨ g.needsSync = true → pyCanMove g = false := by
    rintro g (rfl | hg)
    · exact h
    · exact pyCanMove_waits (.inl hg)
  cases c with
  | newConnection => exact pyCanMove_waits (.inl rfl)
  | disconnect generation => exact hstays _ (disconnect_waits s.gate generation)
  | acceptView raw generation synchronized =>
    exact hstays _ ((pyAcceptView_accepts cats s.gate raw generation synchronized).refused (map_flag_ne (hc _ _ _ rfl)))
  | prepareMove usi =>
    have hnone : pyMoveView s.gate = none := by
      unfold pyCanMove at h
      rwa [isSome_eq_false_iff, isNone_iff_eq_none] at h
    simp only [pyCall, pyPrepareMove, hnone]
    exact h
  | acknowledge intent raw =>
    simp only [pyCall]
    split
    · exact h
    · next i _ => exact hstays _ (pyAcknowledge_acknowledges s.gate i raw).waits
  | timeout intent =>
    simp only [pyCall]
    split
    · exact h
    · next i _ => exact hstays _ (timeout_waits s.gate i)
  | requestQuiesce => exact h

/-- The move itself was refused: its text, or that it was tried before. -/
def refusesMove (code : ProtocolError) : Bool := code = .invalid_usi || code = .already_attempted

theorem raised_js {s' : PySide} (hplain : plainCall cats s s' c)
    (h : (jsCall cats s c).2 = .error code) (hcode : refusesMove code = false) : jsCanMove (jsCall cats s c).1.gate = false := by
  cases c with
  | newConnection =>
    have hsmall : ¬ MAX_INTEGER < s.gate.generation + 1 := by
      have : s.gate.generation < MAX_INTEGER := hplain
      omega
    simp only [jsCall, if_neg hsmall] at h
    cases h
  | disconnect | requestQuiesce => cases h
  | acceptView raw generation synchronized =>
    have haccepts := jsAcceptView_accepts cats s.gate raw generation synchronized
    rw [map_flag_error h] at haccepts
    exact jsCanMove_waits (.inl haccepts.raised)
  | prepareMove usi =>
    have hsmall : ¬ MAX_INTEGER < s.gate.sequence + 1 := by
      have : s.gate.sequence < MAX_INTEGER := hplain
      omega
    simp only [jsCall, jsPrepareMove] at h ⊢
    cases hview : jsMoveView s.gate with
    | none =>
      unfold jsCanMove
      rw [hview]
      rfl
    | some v =>
      simp only [hview] at h
      cases husi : usiOf usi with
      | none =>
        simp only [husi] at h
        cases h
        cases hcode
      | some usi =>
        simp only [husi] at h
        by_cases hattempted : usi ∈ s.gate.attempted
        · simp only [if_pos hattempted] at h
          cases h
          cases hcode
        · simp only [if_neg hattempted, if_neg hsmall] at h
          cases h
  | acknowledge intent raw =>
    simp only [jsCall] at h ⊢
    cases hi : s.issued[intent]? with
    | none =>
      rw [hi] at h
      cases h
    | some i =>
      rw [hi] at h
      have hack := jsAcknowledge_acknowledges s.gate i raw
      rw [map_flag_error h] at hack
      exact jsCanMove_waits hack.raised
  | timeout intent =>
    simp only [jsCall] at h
    split at h <;> cases h

theorem raised_py {s : PySide} (h : (pyCall cats s c).2 = .error code)
    (hcode : refusesMove code = false) : pyCanMove (pyCall cats s c).1.gate = false := by
  cases c with
  | newConnection | disconnect | requestQuiesce => cases h
  | acceptView raw generation synchronized =>
    have haccepts := pyAcceptView_accepts cats s.gate raw generation synchronized
    rw [map_flag_error h] at haccepts
    exact pyCanMove_waits (.inl haccepts.raised)
  | prepareMove usi =>
    simp only [pyCall, pyPrepareMove] at h ⊢
    cases hview : pyMoveView s.gate with
    | none =>
      unfold pyCanMove
      rw [hview]
      rfl
    | some v =>
      simp only [hview] at h
      cases husi : usiOf usi with
      | none =>
        simp only [husi] at h
        cases h
        cases hcode
      | some usi =>
        simp only [husi] at h
        by_cases hattempted : usi ∈ s.gate.attempted
        · simp only [if_pos hattempted] at h
          cases h
          cases hcode
        · simp only [if_neg hattempted] at h
          cases h
  | acknowledge intent raw =>
    simp only [pyCall] at h ⊢
    cases hi : s.issued[intent]? with
    | none =>
      rw [hi] at h
      cases h
    | some i =>
      rw [hi] at h
      have hack := pyAcknowledge_acknowledges s.gate i raw
      rw [map_flag_error h] at hack
      exact pyCanMove_waits hack.raised
  | timeout intent =>
    simp only [pyCall] at h
    split at h <;> cases h

end Blocked

/-! ## Runs -/

section Runs

variable (cats : Categories)

def jsNext (s : JsSide) (c : Call) : JsSide := (jsCall cats s c).1

def pyNext (s : PySide) (c : Call) : PySide := (pyCall cats s c).1

def next (p : JsSide × PySide) (c : Call) : JsSide × PySide := (jsNext cats p.1 c, pyNext cats p.2 c)

def start : JsSide × PySide := (Side.new View Intent, Side.new PlayerView MoveIntent)

/-- A call is answered alike by both, and leaves them in one state. -/
structure Alike (p : JsSide × PySide) (c : Call) : Prop where
  reply : Both SameReply (jsCall cats p.1 c).2 (pyCall cats p.2 c).2
  gate : SameGate (next cats p c).1.gate (next cats p c).2.gate
  canMove : jsCanMove (next cats p c).1.gate = pyCanMove (next cats p c).2.gate
  canJoinQueue : jsCanJoinQueue (next cats p c).1.gate = pyCanJoinQueue (next cats p c).2.gate
  raises : ∀ code, (jsCall cats p.1 c).2 = .error code → refusesMove code = false → ∀ calls,
    (Along (jsNext cats) (fun s c => NoView c (jsCall cats s c).2) (next cats p c).1 calls →
      jsCanMove (calls.foldl (jsNext cats) (next cats p c).1).gate = false) ∧
    (Along (pyNext cats) (fun s c => NoView c (pyCall cats s c).2) (next cats p c).2 calls →
      pyCanMove (calls.foldl (pyNext cats) (next cats p c).2).gate = false)

theorem alike_of_plain {p : JsSide × PySide} {c : Call} (h : SameSide p.1 p.2) (hplain : plainCall cats p.1 p.2 c) :
    Alike cats p c ∧ SameSide (next cats p c).1 (next cats p c).2 := by
  obtain ⟨hside, hreply⟩ := call_same cats h hplain
  refine ⟨⟨hreply, hside.gate, canMove_same hside.gate, canJoinQueue_same hside.gate, fun code hcode hrefuses calls => ?_⟩, hside⟩
  have hpy : (pyCall cats p.2 c).2 = .error code := by
    rw [hcode] at hreply
    cases hp : (pyCall cats p.2 c).2 with
    | ok r =>
      rw [hp] at hreply
      cases hreply
    | error code' =>
      rw [hp] at hreply
      cases hreply
      rfl
  have hjs := raised_js cats hplain hcode hrefuses
  have hpy := raised_py cats hpy hrefuses
  have hstep : ∀ s c, jsCanMove s.gate = false → NoView c (jsCall cats s c).2 → jsCanMove (jsNext cats s c).gate = false :=
    fun s c => blocked_js cats
  have hstep' : ∀ s c, pyCanMove s.gate = false → NoView c (pyCall cats s c).2 → pyCanMove (pyNext cats s c).gate = false :=
    fun s c => blocked_py cats
  exact ⟨foldl_of_along (fun s : JsSide => jsCanMove s.gate = false) hstep hjs,
    foldl_of_along (fun s : PySide => pyCanMove s.gate = false) hstep' hpy⟩

/-- Runs of plain calls are answered alike, step for step. -/
theorem gates_alike (calls : List Call) (h : Along (next cats) (fun p c => plainCall cats p.1 p.2 c) start calls) :
    Along (next cats) (Alike cats) start calls :=
  along_of_inv (fun p => SameSide p.1 p.2) (fun _ _ hs hc => alike_of_plain cats hs hc) sameSide_new h

end Runs

/-! ## A game -/

/-- The ASCII controls and the two code points that every table has. -/
def ascii : Categories where
  other c := c < 0x20 || c = 0x85 || c = 0xFEFF
  control c h := by simp [h]
  space := by decide
  next_line := by decide
  byte_order_mark := by decide

def pawnView : Value :=
  .object [(gameIdKey, .string (text ['g'])), (yourColorKey, .string senteText), (turnKey, .string senteText),
    (moveNumberKey, .int 1), (statusKey, .string playingText),
    (yourPiecesKey, .array [.object [(squareKey, .string (text ['7', 'g'])), (roleKey, .string (text ['p', 'a', 'w', 'n']))]]),
    (yourHandKey, .object []),
    (clocksKey, .object [(runningKey, .string senteText), (senteMsKey, .int 0), (goteMsKey, .int 0), (serverTimeKey, .int 0)]),
    (foulsKey, .object [(youKey, .int 0), (opponentKey, .int 0)]), (youInCheckKey, .bool false),
    (opponentInCheckKey, .bool false)]

def pawnMove : Value := .string (text ['7', 'g', '7', 'f'])

def okAck : Value := .object [(okKey, .bool true)]

def opening : List Call := [.newConnection, .acceptView pawnView 1 true, .prepareMove pawnMove]

theorem opening_alike : Along (next ascii) (fun p c => plainCall ascii p.1 p.2 c) start (opening ++ [.acknowledge 0 okAck]) ∧
    Along (next ascii) (Alike ascii) start (opening ++ [.acknowledge 0 okAck]) := by
  have hplain : Along (next ascii) (fun p c => plainCall ascii p.1 p.2 c) start (opening ++ [.acknowledge 0 okAck]) :=
    ⟨show (0 : ℤ) < MAX_INTEGER by decide, fun _ _ => by decide,
      show ((opening.take 2).foldl (next ascii) start).1.gate.sequence < MAX_INTEGER by decide,
      fun _ _ => by decide, trivial⟩
  exact ⟨hplain, gates_alike ascii _ hplain⟩

def badAck : List Call := opening ++ [.acknowledge 0 .null]

def badMove : List Call := opening.take 2 ++ [.prepareMove .null]

/-- After an acknowledgement that is no record only the gate of the worker waits for a view; and a move that is refused for
its text leaves both gates ready for another. -/
theorem gates_differ :
    ((badAck.foldl (next ascii) start).1.gate.needsSync = true ∧ (badAck.foldl (next ascii) start).2.gate.needsSync = false) ∧
    (jsCall ascii ((opening.take 2).foldl (next ascii) start).1 (.prepareMove .null)).2 = .error .invalid_usi ∧
    jsCanMove (badMove.foldl (next ascii) start).1.gate = true ∧ pyCanMove (badMove.foldl (next ascii) start).2.gate = true := by
  decide

end Docich.MoveGate
