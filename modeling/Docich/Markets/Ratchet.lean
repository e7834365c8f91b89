import Docich.Markets.Gates

/-!
# The ratchet of an exit

From tick to tick the exit state of a position moves one way only (`ExitState.Ratchets`): the peak in the position's
favour, the stop after it, and an exit that was asked for stays, with its trigger. What closes the position in the end
carries that exit, and nets what the last observation computed (`ClosedBy`).

* `observeExit_ratchets`, `exitReason_ratchets`: one observation.
* `handle_follows`, `tick_follows`: the positions of an account over one quote and over one tick.
* `exits_ratchet`: over every list of calls, from every book.
-/

namespace Docich.Markets

open Durable

/-! ## Ratchets -/

/-- The second price is not behind the first, in the side's favour. -/
def Ahead (side : Side) (x y : ℚ) : Prop :=
  match side with
  | .long => x ≤ y
  | .short => y ≤ x

theorem ahead_refl (side : Side) (x : ℚ) : Ahead side x x := by
  cases side with
  | long => exact le_refl x
  | short => exact le_refl x

theorem Ahead.trans {side : Side} {x y z : ℚ} (h : Ahead side x y) (h' : Ahead side y z) : Ahead side x z := by
  cases side with
  | long => exact le_trans (show x ≤ y from h) h'
  | short => exact le_trans (show z ≤ y from h') h

theorem ahead_favoured (side : Side) (x y : ℚ) : Ahead side x (favoured side x y) := by
  cases side with
  | long => exact le_max_left x y
  | short => exact min_le_left x y

structure ExitState.Ratchets (side : Side) (state state' : ExitState) : Prop where
  peak : Ahead side state.peakPrice state'.peakPrice
  stop : Ahead side state.stopPrice state'.stopPrice
  armed : state.armed = true → state'.armed = true
  latched : ∀ reason, state.requestedReason = some reason → state'.requestedReason = some reason ∧
    state'.triggerQuoteTs = state.triggerQuoteTs ∧ state'.triggerStopPrice = state.triggerStopPrice
  maxNet : state.maxNetPnl ≤ state'.maxNetPnl

theorem ExitState.Ratchets.refl (side : Side) (state : ExitState) : state.Ratchets side state where
  peak := ahead_refl _ _
  stop := ahead_refl _ _
  armed := fun h => h
  latched := fun _ h => ⟨h, rfl, rfl⟩
  maxNet := le_rfl

theorem ExitState.Ratchets.trans {side : Side} {s t u : ExitState} (h : s.Ratchets side t) (h' : t.Ratchets side u) :
    s.Ratchets side u where
  peak := h.peak.trans h'.peak
  stop := h.stop.trans h'.stop
  armed := fun ha => h'.armed (h.armed ha)
  latched := by
    intro reason hr
    obtain ⟨ht, hts, hstop⟩ := h.latched reason hr
    obtain ⟨hu, hts', hstop'⟩ := h'.latched reason ht
    exact ⟨hu, hts'.trans hts, hstop'.trans hstop⟩
  maxNet := h.maxNet.trans h'.maxNet

/-- What a position is entered with. -/
structure Position.SameContract (p p' : Position) : Prop where
  frame : p' = { p with
    mark := p'.mark, markTs := p'.markTs, financedAt := p'.financedAt, financing := p'.financing
    exitState := p'.exitState }

/-- The same position later on. -/
structure Position.Ratchets (p p' : Position) : Prop where
  contract : p.SameContract p'
  state : ∀ state, p.exitState = some state → ∃ state', p'.exitState = some state' ∧ state.Ratchets p.side state'

section Position

variable {p p' p'' : Position}

variable (h : p.SameContract p')

include h

theorem Position.SameContract.side : p'.side = p.side := by rw [h.frame]

theorem Position.SameContract.symbol : p'.symbol = p.symbol := by rw [h.frame]

theorem Position.SameContract.trans (h' : p'.SameContract p'') : p.SameContract p'' := by
  constructor
  rw [h'.frame, h.frame]

omit h

theorem SameEntry.contract (h : SameEntry p p') : p.SameContract p' := by
  constructor
  rw [h]

include h in
theorem Position.Ratchets.of_state (hstate : p'.exitState = p.exitState) : p.Ratchets p' where
  contract := h
  state := fun state hs => ⟨state, hstate.trans hs, .refl _ _⟩

theorem Position.Ratchets.refl (p : Position) : p.Ratchets p := .of_state ⟨rfl⟩ rfl

theorem Position.Ratchets.trans (h : p.Ratchets p') (h' : p'.Ratchets p'') : p.Ratchets p'' where
  contract := h.contract.trans h'.contract
  state := by
    intro state hs
    obtain ⟨state', hs', hr⟩ := h.state state hs
    obtain ⟨state'', hs'', hr'⟩ := h'.state state' hs'
    rw [h.contract.side] at hr'
    exact ⟨state'', hs'', hr.trans hr'⟩

end Position

/-! ## One observation -/

section Observe

variable {p p' : Position} {feeBps slippageBps : ℚ}

theorem advanceStop_ratchets {state state' : ExitState} (h : advanceStop p state = .ok state') :
    state.Ratchets p.side state' ∧ state'.maxNetPnl = state.maxNetPnl := by
  unfold advanceStop at h
  split at h
  · cases h
    exact ⟨.refl _ _, rfl⟩
  · split at h
    · cases h
      refine ⟨?_, rfl⟩
      constructor
      · exact ahead_refl _ _
      · dsimp only
        split
        · exact ahead_favoured _ _ _
        · exact ahead_refl _ _
      · intro ha
        simp [ha]
      · exact fun reason hr => ⟨hr, rfl, rfl⟩
      · exact le_rfl
    · cases h

/-- An observation ratchets the exit state, and counts the net at the mark. -/
theorem observeExit_ratchets (h : observeExit p feeBps slippageBps = .ok p') : p.Ratchets p' ∧
    ∃ state', p'.exitState = some state' ∧ netAtMark p feeBps slippageBps ≤ state'.maxNetPnl := by
  have hentry := observeExit_entry h
  unfold observeExit at h
  cases ht : trackedState p with
  | error e =>
    rw [ht] at h
    cases h
  | ok state =>
    rw [ht] at h
    simp only [bind, Except.bind] at h
    split at h
    · cases h
    · simp only [pure, Except.pure] at h
      split at h
      · cases h
      · next advanced hadvance =>
        cases h
        obtain ⟨hratchets, -⟩ := advanceStop_ratchets hadvance
        refine ⟨⟨hentry.contract, fun old hold => ⟨_, rfl, ?_⟩⟩, _, rfl, ?_⟩
        · have hstate : old = state := by
            unfold trackedState at ht
            rw [hold] at ht
            exact Except.ok.inj ht
          subst hstate
          constructor
          · exact (ahead_favoured _ _ _).trans hratchets.peak
          · exact hratchets.stop
          · exact hratchets.armed
          · exact hratchets.latched
          · exact hratchets.maxNet.trans ((le_max_left _ _).trans (le_max_right _ _))
        · exact (le_max_right _ _).trans (le_max_right _ _)

/-- Asking for an exit keeps the one that was asked for. -/
theorem exitReason_ratchets {h : Host} {state : ExitState} {now : Time} {direction : Option Side}
    {forceFlat riskStopped : Bool} {reason : Option Reason} (hstate : p.exitState = some state)
    (ha : exitReason h p state now direction forceFlat riskStopped = (p', reason)) :
    p.Ratchets p' ∧ ∃ state', p'.exitState = some state' ∧ state'.maxNetPnl = state.maxNetPnl ∧
      ∀ r, reason = some r → state'.requestedReason = some r := by
  unfold exitReason at ha
  split at ha
  · next asked hasked =>
    cases ha
    exact ⟨.refl _, state, hstate, rfl, fun r hr => by cases hr; exact hasked⟩
  · next hnone =>
    split at ha
    · cases ha
      exact ⟨.refl _, state, hstate, rfl, fun r hr => nomatch hr⟩
    · next first _ =>
      cases ha
      refine ⟨⟨⟨rfl⟩, fun old hold => ⟨_, rfl, ?_⟩⟩, _, rfl, rfl, fun r hr => hr⟩
      rw [hstate] at hold
      cases hold
      constructor
      · exact ahead_refl _ _
      · exact ahead_refl _ _
      · exact fun ha => ha
      · intro r hr
        rw [hnone] at hr
        cases hr
      · exact le_rfl

end Observe

/-! ## The close -/

/-- The fill closes the position with the exit that it asked for, and nets what the last observation computed. -/
structure ClosedBy (limits : Limits) (p : Position) (f : Fill) : Prop where
  symbol : f.symbol = p.symbol
  side : f.side = p.side
  qty : f.qty = p.qty
  price : f.price = p.mark * (1 - p.side.sign * limits.slippageBps / 10000)
  close : ∃ state d, p.exitState = some state ∧ f.close = some d ∧ state.requestedReason = some d.reason ∧
    state.triggerQuoteTs = some d.exit.triggerQuoteTs ∧ state.triggerStopPrice = some d.exit.triggerStopPrice ∧
    (∃ o o', observeExit o limits.feeBps limits.slippageBps = .ok o' ∧ SameEntry o p ∧
      d.netPnlJpy = netAtMark o limits.feeBps limits.slippageBps) ∧
    d.exit.maxNetPnl = state.maxNetPnl ∧ d.netPnlJpy ≤ d.exit.maxNetPnl ∧
    d.exit.peakToExitGiveback = d.exit.maxNetPnl - d.netPnlJpy

theorem fillExitDetails_ok {p : Position} {netPnl : ℚ} {details : ExitDetails}
    (h : fillExitDetails p netPnl = .ok details) : ∃ state, p.exitState = some state ∧
      state.triggerQuoteTs = some details.triggerQuoteTs ∧ state.triggerStopPrice = some details.triggerStopPrice ∧
      details.maxNetPnl = state.maxNetPnl ∧ details.peakToExitGiveback = max 0 (state.maxNetPnl - netPnl) := by
  unfold fillExitDetails at h
  split at h
  · cases h
  · next state hstate =>
    split at h
    · next ts stop hts hstop =>
      cases h
      exact ⟨state, hstate, hts, hstop, rfl, rfl⟩
    · cases h
    · cases h

/-! ## The positions of an account -/

/-- Every position is still held, ratcheted, or a new fill closed it. -/
structure Follows (limits : Limits) (s : Account) (fills : Table Fill.id) (s' : Account) (fills' : Table Fill.id) :
    Prop where
  kept : ∀ f ∈ fills, f ∈ fills'
  positions : ∀ symbol p, s.positions.find? symbol = some p →
    (∃ p', s'.positions.find? symbol = some p' ∧ p.Ratchets p') ∨
      ∃ p' f, f ∈ fills' ∧ f ∉ fills ∧ p.Ratchets p' ∧ ClosedBy limits p' f

section Follows

variable {limits : Limits} {c : Context} {q : ValidQuote} {s s' s'' : Account} {b b' : Book}
  {fills fills' fills'' : Table Fill.id}

theorem Follows.of_ratchets (h : ∀ symbol p, s.positions.find? symbol = some p →
    ∃ p', s'.positions.find? symbol = some p' ∧ p.Ratchets p') : Follows limits s fills s' fills where
  kept := fun _ hf => hf
  positions := fun symbol p hp => .inl (h symbol p hp)

theorem Follows.of_positions (h : s'.positions = s.positions) : Follows limits s fills s' fills :=
  .of_ratchets fun symbol p hp => ⟨p, by rw [h]; exact hp, .refl p⟩

theorem Follows.trans (h : Follows limits s fills s' fills') (h' : Follows limits s' fills' s'' fills'') :
    Follows limits s fills s'' fills'' where
  kept := fun f hf => h'.kept f (h.kept f hf)
  positions := by
    intro symbol p hp
    rcases h.positions symbol p hp with ⟨p', hp', hr⟩ | ⟨p', f, hf, hnew, hr, hclosed⟩
    · rcases h'.positions symbol p' hp' with ⟨p'', hp'', hr'⟩ | ⟨p'', f, hf, hnew, hr', hclosed⟩
      · exact .inl ⟨p'', hp'', hr.trans hr'⟩
      · exact .inr ⟨p'', f, hf, fun hold => hnew (h.kept f hold), hr.trans hr', hclosed⟩
    · exact .inr ⟨p', f, h'.kept f hf, hnew, hr, hclosed⟩

theorem marked_ratchets (valid : List ValidQuote) (p : Position) : p.Ratchets (p.marked valid) := by
  unfold Position.marked
  split
  · exact .of_state ⟨rfl⟩ rfl
  · exact .refl p

/-- A change of every position that ratchets it. -/
theorem update_follows {g : Position → Position} (hsymbol : ∀ p, (g p).symbol = p.symbol)
    (hg : ∀ p : Position, p.Ratchets (g p))
    (h : s'.positions = s.positions.update (fun _ => true) g hsymbol) : Follows limits s fills s' fills := by
  apply Follows.of_ratchets
  intro symbol p hp
  refine ⟨g p, ?_, hg p⟩
  rw [h, Table.find?_update, hp]
  rfl

theorem markAll_follows (valid : List ValidQuote) (h : s'.positions = markAll valid s.positions) :
    Follows limits s fills s' fills :=
  update_follows (Position.marked_symbol valid) (marked_ratchets valid) h

/-- One position is replaced by a ratcheted one. -/
theorem upsert_follows {p p' : Position} (hp : s.positions.find? p.symbol = some p) (hr : p.Ratchets p')
    (h : s'.positions = s.positions.upsert p') : Follows limits s fills s' fills := by
  apply Follows.of_ratchets
  intro symbol x hx
  rw [h, Table.find?_upsert, hr.contract.symbol]
  by_cases hs : symbol = p.symbol
  · rw [if_pos hs]
    rw [hs, hp] at hx
    cases hx
    exact ⟨p', rfl, hr⟩
  · rw [if_neg hs]
    exact ⟨x, hx, .refl x⟩

theorem closePosition_follows {o o' p : Position} {state : ExitState} {reason : Reason}
    (hobserved : observeExit o c.limits.feeBps c.limits.slippageBps = .ok o') (hentry : SameEntry o p)
    (hstate : p.exitState = some state) (hrequested : state.requestedReason = some reason)
    (hnet : netAtMark o c.limits.feeBps c.limits.slippageBps ≤ state.maxNetPnl)
    (hp : s.positions.find? p.symbol = some p) (h : closePosition c p reason s b = (b', .ok s')) :
    Follows c.limits s b.fills s' b'.fills := by
  obtain ⟨details, b₁, hd, h⟩ := Statements.bind_ok h
  obtain ⟨rfl, hdetails⟩ := Statements.ofExcept_ok hd
  obtain ⟨_, b₂, hf, h⟩ := Statements.bind_ok h
  obtain ⟨hfills, -⟩ := insertFill_ok hf
  obtain ⟨rfl, rfl⟩ := Statements.pure_ok h
  obtain ⟨state', hstate', hts, hstop, hmax, hgiveback⟩ := fillExitDetails_ok hdetails
  rw [hstate] at hstate'
  cases hstate'
  have hsame : netAtMark p c.limits.feeBps c.limits.slippageBps = netAtMark o c.limits.feeBps c.limits.slippageBps := by
    rw [hentry]
    rfl
  have hclosed : ClosedBy c.limits p (closeFill c p reason (netAtMark p c.limits.feeBps c.limits.slippageBps)
      (p.mark * (1 - p.side.sign * c.limits.slippageBps / 10000))
      (p.qty * (p.mark * (1 - p.side.sign * c.limits.slippageBps / 10000)) * c.limits.feeBps / 10000) details) := by
    refine ⟨rfl, rfl, rfl, rfl, state, _, hstate, rfl, hrequested, hts, hstop, ⟨o, o', hobserved, hentry, hsame⟩,
      hmax, ?_, ?_⟩
    · dsimp only
      rw [hmax, hsame]
      exact hnet
    · dsimp only
      rw [hgiveback, hmax]
      apply max_eq_right
      change 0 ≤ state.maxNetPnl - netAtMark p c.limits.feeBps c.limits.slippageBps
      rw [hsame]
      exact sub_nonneg.mpr hnet
  constructor
  · exact fun f hf => (Table.mem_insert? hfills).mpr (.inl hf)
  · intro symbol x hx
    by_cases hs : symbol = p.symbol
    · rw [hs, hp] at hx
      cases hx
      refine .inr ⟨p, _, (Table.mem_insert? hfills).mpr (.inr rfl), fun hold => ?_, .refl p, hclosed⟩
      exact (Table.insert?_eq_some hfills).2 _ hold rfl
    · refine .inl ⟨x, ?_, .refl x⟩
      rw [Table.find?_delete, if_neg hs]
      exact hx

theorem holdOrClose_follows {direction : Option Side} {p : Position} (hp : s.positions.find? q.symbol = some p)
    (h : holdOrClose c q direction p s b = (b', .ok s')) : Follows c.limits s b.fills s' b'.fills := by
  have hsymbol : p.symbol = q.symbol := (Table.find?_eq_some.mp hp).2
  rw [← hsymbol] at hp
  obtain ⟨p₁, b₁, hread, h⟩ := Statements.bind_ok h
  obtain ⟨rfl, hobserved⟩ := Statements.ofExcept_ok hread
  obtain ⟨hr₁, state, hstate, hnet⟩ := observeExit_ratchets hobserved
  have hentry := observeExit_entry hobserved
  rw [hstate] at h
  dsimp only at h
  cases hasked : exitReason c.host p₁ state c.now direction c.forceFlat s.riskStopped with
  | mk p₂ reason =>
    rw [hasked] at h
    have hentry₂ := hentry.trans (by
      have hkeeps := exitReason_entry c.host p₁ state c.now direction c.forceFlat s.riskStopped
      rwa [hasked] at hkeeps)
    obtain ⟨hr₂, state₂, hstate₂, hmax, hrequested⟩ := exitReason_ratchets hstate hasked
    have hkept : Follows c.limits s b.fills { s with positions := s.positions.upsert p₂ } b.fills :=
      upsert_follows hp (hr₁.trans hr₂) rfl
    cases reason with
    | none =>
      obtain ⟨rfl, rfl⟩ := Statements.pure_ok h
      exact hkept
    | some reason =>
      dsimp only at h
      split at h
      · obtain ⟨rfl, rfl⟩ := Statements.pure_ok h
        exact hkept
      · apply hkept.trans
        apply closePosition_follows hobserved hentry₂ hstate₂ (hrequested reason rfl) (by rw [hmax]; exact hnet) ?_ h
        rw [Table.find?_upsert, if_pos rfl]

theorem enter_follows {direction : Side} (hnew : s.positions.find? q.symbol = none)
    (h : enter c q direction s b = (b', .ok s')) : Follows c.limits s b.fills s' b'.fills := by
  have hmarked : Follows c.limits s b.fills { s with positions := markAll c.valid s.positions } b.fills :=
    markAll_follows c.valid rfl
  unfold enter at h
  split at h
  · obtain ⟨rfl, rfl⟩ := Statements.pure_ok h
    exact hmarked
  · obtain ⟨p, b₁, hread, h⟩ := Statements.bind_ok h
    obtain ⟨rfl, hobserved⟩ := Statements.ofExcept_ok hread
    obtain ⟨_, b₂, hf, h⟩ := Statements.bind_ok h
    obtain ⟨hfills, -⟩ := insertFill_ok hf
    obtain ⟨rfl, rfl⟩ := Statements.pure_ok h
    have hsymbol : p.symbol = q.symbol := by
      rw [observeExit_entry hobserved]
      rfl
    apply hmarked.trans
    constructor
    · exact fun f hf => (Table.mem_insert? hfills).mpr (.inl hf)
    · intro symbol x hx
      have hne : symbol ≠ p.symbol := by
        rintro rfl
        have hnone : (markAll c.valid s.positions).find? p.symbol = none := by
          unfold markAll
          rw [Table.find?_update, hsymbol, hnew]
          rfl
        rw [hnone] at hx
        cases hx
      refine .inl ⟨x, ?_, .refl x⟩
      rw [Table.find?_upsert, if_neg hne]
      exact hx

theorem handle_follows (h : handle c q s b = (b', .ok s')) : Follows c.limits s b.fills s' b'.fills := by
  have hobserved : Follows c.limits s b.fills (observeHistory q s) b.fills := .of_positions rfl
  apply hobserved.trans
  unfold handle at h
  cases hp : (observeHistory q s).positions.find? q.symbol with
  | some p =>
    simp only [hp] at h
    exact holdOrClose_follows hp h
  | none =>
    simp only [hp] at h
    cases hdirection : signal ((observeHistory q s).history q.symbol) c.policy with
    | none =>
      simp only [hdirection] at h
      obtain ⟨rfl, rfl⟩ := Statements.pure_ok h
      exact .of_positions rfl
    | some direction =>
      simp only [hdirection] at h
      split at h
      · exact enter_follows hp h
      · obtain ⟨rfl, rfl⟩ := Statements.pure_ok h
        exact .of_positions rfl

theorem handleAll_follows {quotes : List ValidQuote} (h : handleAll c quotes s b = (b', .ok s')) :
    Follows c.limits s b.fills s' b'.fills := by
  induction quotes generalizing s b with
  | nil =>
    obtain ⟨rfl, rfl⟩ := Statements.pure_ok h
    exact .of_positions rfl
  | cons q quotes ih =>
    obtain ⟨t, u, hq, h⟩ := Statements.bind_ok h
    exact (handle_follows hq).trans (ih h)

/-! ## A tick -/

theorem openTick_follows (c : Context) (s : Account) (fills : Table Fill.id) :
    Follows c.limits s fills (openTick c s) fills := by
  have hfinance : Follows c.limits s fills (finance c s) fills := by
    unfold finance
    cases c.market with
    | stocks => exact .of_positions rfl
    | fx => exact update_follows (Position.financed_symbol c) (fun p => .of_state ⟨rfl⟩ rfl) rfl
  apply hfinance.trans
  apply markAll_follows c.valid
  unfold openTick
  rw [(stopRisk_books c _ _).2, (rollOver_books c _ _).2]

theorem finish_follows {quotes : List Quote} {m : Metric} (h : finish c quotes s b = (b', .ok m)) :
    Follows c.limits s b.fills b'.account b'.fills := by
  have hclose : Follows c.limits s b.fills (closeTick c s) b.fills := markAll_follows c.valid rfl
  apply hclose.trans
  obtain ⟨t, b₁, hp, h⟩ := Statements.bind_ok h
  obtain ⟨-, hpositions, hfills⟩ := prune_ok hp
  obtain ⟨_, b₂, hw, h⟩ := Statements.bind_ok h
  cases hw
  obtain ⟨_, b₃, ht, h⟩ := Statements.bind_ok h
  have ht := Statements.tryWrite_ok ht
  obtain ⟨ticks, -, rfl⟩ := Option.map_eq_some_iff.mp ht
  obtain ⟨_, b₄, hm, h⟩ := Statements.bind_ok h
  cases hm
  obtain ⟨rfl, -⟩ := Statements.pure_ok h
  rw [hfills]
  exact .of_positions hpositions

end Follows

theorem tick_follows {c : Context} {quotes : List Quote} {b b' : Book} {m : Metric} (h : TickRun c quotes b b' m) :
    Follows c.limits b.account b.fills b'.account b'.fills := by
  obtain ⟨s, b₁, hall, hfinish⟩ := h.handled
  have hopen := openTick_follows (freshContext c b.account) b.account b.fills
  exact (hopen.trans (handleAll_follows hall)).trans (finish_follows hfinish)

theorem process_follows (h : Host) (market : Market) (limits : Limits) (call : Call) (b : Book) :
    Follows limits b.account b.fills (process h market limits call b).1.account
      (process h market limits call b).1.fills := by
  rcases process_run h market limits call b with ⟨heq, -⟩ | ⟨c, m, hctx, htick⟩
  · rw [heq]
    exact .of_positions rfl
  · have hlimits : c.limits = limits := (context_ok hctx).2.2.1
    have hfollows := tick_follows htick
    rwa [hlimits] at hfollows

theorem after_follows (h : Host) (market : Market) (limits : Limits) (calls : List Call) (b : Book) :
    Follows limits b.account b.fills (after h market limits b calls).account (after h market limits b calls).fills := by
  induction calls generalizing b with
  | nil => exact .of_positions rfl
  | cons call calls ih => exact (process_follows h market limits call b).trans (ih _)

/-- **Exits ratchet and latch.** Over every list of calls, from every book, a position stays held and its exit state
only moves forward, or a new fill closed it: with the exit that was asked for and its trigger, the net that the last
observation computed, and what the position gave back since its best net. -/
theorem exits_ratchet (h : Host) (market : Market) (limits : Limits) (b : Book) (calls : List Call) (symbol : String)
    (p : Position) (hp : b.account.positions.find? symbol = some p) :
    (∃ p', (after h market limits b calls).account.positions.find? symbol = some p' ∧ p.Ratchets p') ∨
      ∃ p' f, f ∈ (after h market limits b calls).fills ∧ f ∉ b.fills ∧ p.Ratchets p' ∧ ClosedBy limits p' f :=
  (after_follows h market limits calls b).positions symbol p hp

/-- The short of the falling prices is closed at the end of its session. -/
theorem exits_ratchet_short : ∃ p' f, f ∈ (after plainHost .fx plainLimits
      (after plainHost .fx plainLimits (.new plainLimits) fallingCalls) [plainCall 1003 "9990" "10010" true]).fills ∧
    ClosedBy plainLimits p' f := by
  have hheld : ((after plainHost .fx plainLimits (.new plainLimits) fallingCalls).account.positions.find?
      "USD_JPY").isSome = true := by
    decide +kernel
  obtain ⟨p, hp⟩ := Option.isSome_iff_exists.mp hheld
  rcases exits_ratchet plainHost .fx plainLimits _ [plainCall 1003 "9990" "10010" true] "USD_JPY" p hp with
    ⟨p', hp', -⟩ | ⟨p', f, hf, -, -, hclosed⟩
  · have hgone : ((after plainHost .fx plainLimits (after plainHost .fx plainLimits (.new plainLimits) fallingCalls)
        [plainCall 1003 "9990" "10010" true]).account.positions.find? "USD_JPY").isNone = true := by
      decide +kernel
    rw [hp'] at hgone
    cases hgone
  · exact ⟨p', f, hf, hclosed⟩

end Docich.Markets
