import Docich.Markets.Book

/-!
# What a tick does

The effect of one quote (`Handled`): the positions keep what they were entered with, or one is closed (`Closed`), or
one is opened (`Opened`). The effect of a tick (`Ticked`): the account is financed and marked, the quotes are handled
one after another, and the account is stored. Invariants are proved from these.
-/

namespace Docich.Markets

open Durable Option Statements Table Position

/-! ## Positions that keep their entries -/

/-- What a position holds. -/
def Position.held (p : Position) : Side × ℚ := (p.side, p.qty)

structure SamePositions (t t' : Table Position.symbol) : Prop where
  held : ∀ symbol, (t'.find? symbol).map Position.held = (t.find? symbol).map Position.held
  carried : t'.sum Position.carried = t.sum Position.carried

variable (valid : List ValidQuote) (t : Table Position.symbol)

theorem SamePositions.refl : SamePositions t t := ⟨fun _ => rfl, rfl⟩

theorem Position.marked_held (p : Position) : (p.marked valid).held = p.held := by
  unfold Position.marked
  split <;> rfl

theorem Position.marked_carried (p : Position) : (p.marked valid).carried = p.carried := by
  unfold Position.marked
  split <;> rfl

theorem samePositions_markAll :
    SamePositions t (markAll valid t) := by
  constructor
  · intro symbol
    unfold markAll
    rw [Table.find?_update, map_map]
    congr 1
    funext p
    exact marked_held valid p
  · exact sum_update_same fun p _ _ => marked_carried valid p

variable {p p' : Position} {q : ValidQuote} {direction : Side} {quotes : List Quote} {m : Metric}

theorem samePositions_upsert {t : Table Position.symbol} (hp : t.find? p.symbol = some p)
    (h : SameEntry p p') : SamePositions t (t.upsert p') := by
  have hsymbol : p'.symbol = p.symbol := by rw [h]
  have hheld : p'.held = p.held := by rw [h]; rfl
  have hcarried : p'.carried = p.carried := by rw [h]; rfl
  constructor
  · intro symbol
    rw [Table.find?_upsert]
    split
    · next hs =>
      rw [hs, hsymbol, hp, map_some, map_some, hheld]
    · rfl
  · rw [sum_upsert, hsymbol, hp, map_some, getD_some, hcarried]
    ring

/-- Accounts with the same holdings, whose cash and what their positions carry add up to the same. -/
structure SameBooks (s s' : Account) : Prop where
  held : ∀ symbol, (s'.positions.find? symbol).map Position.held = (s.positions.find? symbol).map Position.held
  worth : s'.cash + s'.positions.sum Position.carried = s.cash + s.positions.sum Position.carried

variable {s s' : Account} {b b' : Book} {c : Context}

theorem SamePositions.books (h : SamePositions s.positions s'.positions) (hc : s'.cash = s.cash) : SameBooks s s' :=
  ⟨h.held, by rw [h.carried, hc]⟩

theorem SameBooks.trans {t u : Account} (h : SameBooks s t) (h' : SameBooks t u) : SameBooks s u :=
  ⟨fun symbol => (h'.held symbol).trans (h.held symbol), h'.worth.trans h.worth⟩

/-! ## One quote -/

/-- A position is closed: its fill is stored, and the cash gets what the position netted and what it carried. -/
structure Closed (c : Context) (q : ValidQuote) (s : Account) (b : Book) (p : Position) (s' : Account) (b' : Book) :
    Prop where
  found : ∃ p₀, s.positions.find? q.symbol = some p₀ ∧ p₀.symbol = q.symbol ∧ SameEntry p₀ p
  fill : ∃ reason netPnl price fee details,
    b.fills.insert? (closeFill c p reason netPnl price fee details) = some b'.fills ∧
      s'.cash = s.cash + netPnl + p.carried
  positions : s'.positions = (s.positions.upsert p).delete p.symbol
  frame : b' = { b with fills := b'.fills }

structure Opened (c : Context) (q : ValidQuote) (direction : Side) (s : Account) (b : Book) (p : Position)
    (s' : Account) (b' : Book) : Prop where
  new : s.positions.find? q.symbol = none
  signaled : signal (s.history q.symbol) c.policy = some direction
  may : mayEnter c q direction s = true
  symbol : p.symbol = q.symbol
  side : p.side = direction
  mark : p.mark = q.markPrice direction
  financing : p.financing = 0
  qty : p.qty = entryQty c q direction (entryRoom c s
    (max 0 (s.cash + unrealized c.limits (markAll c.valid s.positions))) (deployed (markAll c.valid s.positions)))
  qty_pos : 0 < p.qty
  fill : b.fills.insert? (openFill c p) = some b'.fills
  cash : s'.cash = s.cash - p.entryFee
  positions : s'.positions = (markAll c.valid s.positions).upsert p
  frame : b' = { b with fills := b'.fills }

/-- The position is new among the marked ones. -/
theorem Opened.new_marked (h : Opened c q direction s b p s' b') : (markAll c.valid s.positions).find? p.symbol = none := by
  have hheld := (samePositions_markAll c.valid s.positions).held p.symbol
  rw [h.symbol, h.new, map_none] at hheld
  rw [h.symbol]
  exact map_eq_none_iff.mp hheld

inductive Handled (c : Context) (q : ValidQuote) (s : Account) (b : Book) : Account → Book → Prop
  | kept {s' : Account} (h : SameBooks s s') : Handled c q s b s' b
  | closed {p : Position} {s' : Account} {b' : Book} (h : Closed c q s b p s' b') : Handled c q s b s' b'
  | opened {direction : Side} {p : Position} {s' : Account} {b' : Book} (h : Opened c q direction s b p s' b') :
      Handled c q s b s' b'

theorem SameEntry.trans {p'' : Position} (h : SameEntry p p') (h' : SameEntry p' p'') : SameEntry p p'' := by
  unfold SameEntry at *
  rw [h', h]

theorem insertFill_ok {fill : Fill} {u : Unit} (h : insertFill fill b = (b', .ok u)) :
    b.fills.insert? fill = some b'.fills ∧ b' = { b with fills := b'.fills } := by
  have h := tryWrite_ok h
  obtain ⟨fills, hf, rfl⟩ := map_eq_some_iff.mp h
  exact ⟨hf, rfl⟩

theorem closePosition_ok {reason : Reason} (h : closePosition c p reason s b = (b', .ok s')) :
    (∃ netPnl price fee details, b.fills.insert? (closeFill c p reason netPnl price fee details) = some b'.fills ∧
      s'.cash = s.cash + netPnl + p.carried) ∧
    s'.positions = s.positions.delete p.symbol ∧ b' = { b with fills := b'.fills } := by
  obtain ⟨details, b₁, hd, h⟩ := bind_ok h
  obtain ⟨rfl, -⟩ := ofExcept_ok hd
  obtain ⟨_, b₂, hf, h⟩ := bind_ok h
  obtain ⟨hfills, hframe⟩ := insertFill_ok hf
  obtain ⟨rfl, rfl⟩ := pure_ok h
  refine ⟨⟨_, _, _, details, hfills, ?_⟩, rfl, hframe⟩
  unfold Position.carried
  ring

theorem holdOrClose_ok {direction : Option Side}
    (hp : s.positions.find? q.symbol = some p) (h : holdOrClose c q direction p s b = (b', .ok s')) :
    Handled c q s b s' b' := by
  have hsymbol : p.symbol = q.symbol := (Table.find?_eq_some.mp hp).2
  obtain ⟨p₁, b₁, hread, h⟩ := bind_ok h
  obtain ⟨rfl, hobs⟩ := ofExcept_ok hread
  have hsame := observeExit_entry hobs
  cases hstate : p₁.exitState with
  | none =>
    rw [hstate] at h
    exact absurd h throw_ok
  | some state =>
    rw [hstate] at h
    dsimp only at h
    have hentry := hsame.trans (exitReason_entry c.host p₁ state c.now direction c.forceFlat s.riskStopped)
    generalize exitReason c.host p₁ state c.now direction c.forceFlat s.riskStopped = asked at h hentry
    obtain ⟨p₂, reason⟩ := asked
    have hkept : SamePositions s.positions (s.positions.upsert p₂) :=
      samePositions_upsert (by rw [hsymbol]; exact hp) hentry
    cases reason with
    | none =>
      obtain ⟨rfl, rfl⟩ := pure_ok h
      exact .kept (hkept.books rfl)
    | some reason =>
      dsimp only at h
      split at h
      · obtain ⟨rfl, rfl⟩ := pure_ok h
        exact .kept (hkept.books rfl)
      · obtain ⟨⟨netPnl, price, fee, details, hfill, hcash⟩, hpos, hframe⟩ := closePosition_ok h
        exact .closed ⟨⟨p, hp, hsymbol, hentry⟩, ⟨reason, netPnl, price, fee, details, hfill, hcash⟩, hpos, hframe⟩

theorem enter_ok (hnew : s.positions.find? q.symbol = none) (hdir : signal (s.history q.symbol) c.policy = some direction)
    (hmay : mayEnter c q direction s = true) (h : enter c q direction s b = (b', .ok s')) : Handled c q s b s' b' := by
  unfold enter at h
  split at h
  · obtain ⟨rfl, rfl⟩ := pure_ok h
    exact .kept ((samePositions_markAll c.valid s.positions).books rfl)
  · next hqty =>
    obtain ⟨p, b₁, hread, h⟩ := bind_ok h
    obtain ⟨rfl, hobs⟩ := ofExcept_ok hread
    obtain ⟨_, b₂, hf, h⟩ := bind_ok h
    obtain ⟨hfills, hframe⟩ := insertFill_ok hf
    obtain ⟨rfl, rfl⟩ := pure_ok h
    have hp := observeExit_entry hobs
    have hopened : Opened c q direction s b p
        { s with
          cash := s.cash - p.entryFee
          daySpent := s.daySpent + entryQty c q direction (entryRoom c s
            (max 0 (s.cash + unrealized c.limits (markAll c.valid s.positions)))
            (deployed (markAll c.valid s.positions))) * p.entry + p.entryFee
          lastEntry := Function.update s.lastEntry q.symbol q.ts
          positions := (markAll c.valid s.positions).upsert p } b₂ := by
      constructor
      · exact hnew
      · exact hdir
      · exact hmay
      · rw [hp]; rfl
      · rw [hp]; rfl
      · rw [hp]; rfl
      · rw [hp]; rfl
      · rw [hp]; rfl
      · rw [hp]; exact not_le.mp hqty
      · exact hfills
      · rfl
      · rfl
      · exact hframe
    exact .opened hopened

theorem handle_ok (h : handle c q s b = (b', .ok s')) : Handled c q (observeHistory q s) b s' b' := by
  unfold handle at h
  cases hp : (observeHistory q s).positions.find? q.symbol with
  | some p =>
    simp only [hp] at h
    exact holdOrClose_ok hp h
  | none =>
    simp only [hp] at h
    cases hdir : signal ((observeHistory q s).history q.symbol) c.policy with
    | none =>
      simp only [hdir] at h
      obtain ⟨rfl, rfl⟩ := pure_ok h
      exact .kept ((SamePositions.refl _).books rfl)
    | some direction =>
      simp only [hdir] at h
      split at h
      · next hmay => exact enter_ok hp hdir hmay h
      · obtain ⟨rfl, rfl⟩ := pure_ok h
        exact .kept ((SamePositions.refl _).books rfl)

/-- What every quote keeps, the quotes keep one after another. -/
theorem handleAll_induct {P : Account → Book → Prop}
    (hP : ∀ q s b s' b', Handled c q (observeHistory q s) b s' b' → P s b → P s' b') {quotes : List ValidQuote}
    (h : handleAll c quotes s b = (b', .ok s')) (hs : P s b) : P s' b' := by
  induction quotes generalizing s b with
  | nil =>
    obtain ⟨rfl, rfl⟩ := pure_ok h
    exact hs
  | cons q quotes ih =>
    obtain ⟨t, u, hq, h⟩ := bind_ok h
    exact ih h (hP q s b t u (handle_ok hq) hs)

/-! ## A tick -/

theorem sameBooks_finance (c : Context) (s : Account) : SameBooks s (finance c s) := by
  unfold finance
  cases c.market with
  | stocks => exact (SamePositions.refl _).books rfl
  | fx =>
    constructor
    · intro symbol
      rw [Table.find?_update, map_map]
      congr 1
    · dsimp only
      rw [sum_update]
      have hsum : (s.positions.sum fun p => if true = true then (p.financed c).carried else p.carried) =
          s.positions.sum Position.carried + s.positions.sum (financingCharge c) := by
        rw [← sum_add]
        apply sum_congr
        intro p _
        rw [if_pos rfl]
        unfold Position.carried Position.financed
        ring
      rw [hsum]
      ring

theorem rollOver_books (c : Context) (equity : ℚ) (s : Account) :
    (rollOver c equity s).cash = s.cash ∧ (rollOver c equity s).positions = s.positions := by
  unfold rollOver
  split
  · exact ⟨rfl, rfl⟩
  · exact ⟨rfl, rfl⟩

theorem stopRisk_books (c : Context) (equity : ℚ) (s : Account) :
    (stopRisk c equity s).cash = s.cash ∧ (stopRisk c equity s).positions = s.positions := by
  unfold stopRisk
  split
  · exact ⟨rfl, rfl⟩
  · exact ⟨rfl, rfl⟩

/-- Before the quotes, cash only moves into what the positions carry. -/
theorem sameBooks_openTick (c : Context) (s : Account) : SameBooks s (openTick c s) := by
  apply (sameBooks_finance c s).trans
  have hmark : SameBooks (finance c s) { finance c s with positions := markAll c.valid (finance c s).positions } :=
    (samePositions_markAll c.valid _).books rfl
  apply hmark.trans
  unfold openTick
  have hcash : ∀ equity t, (stopRisk c equity (rollOver c equity t)).cash = t.cash := fun equity t =>
    (stopRisk_books c equity _).1.trans (rollOver_books c equity t).1
  have hpos : ∀ equity t, (stopRisk c equity (rollOver c equity t)).positions = t.positions := fun equity t =>
    (stopRisk_books c equity _).2.trans (rollOver_books c equity t).2
  constructor
  · intro symbol
    rw [hpos]
  · rw [hcash, hpos]

theorem sameBooks_closeTick (c : Context) (s : Account) : SameBooks s (closeTick c s) :=
  (samePositions_markAll c.valid s.positions).books rfl

theorem prune_ok (h : prune c s b = (b', .ok s')) :
    s'.cash = s.cash ∧ s'.positions = s.positions ∧ b'.fills = b.fills := by
  unfold prune at h
  split at h
  · cases h
    exact ⟨rfl, rfl, rfl⟩
  · obtain ⟨rfl, rfl⟩ := pure_ok h
    exact ⟨rfl, rfl, rfl⟩

theorem finish_ok (h : finish c quotes s b = (b', .ok m)) : SameBooks s b'.account ∧ b'.fills = b.fills := by
  obtain ⟨t, b₁, hp, h⟩ := bind_ok h
  obtain ⟨hcash, hpos, hfills⟩ := prune_ok hp
  have hbooks : SameBooks s t := by
    apply (sameBooks_closeTick c s).trans
    constructor
    · intro symbol
      rw [hpos]
    · rw [hcash, hpos]
  obtain ⟨_, b₂, hw, h⟩ := bind_ok h
  cases hw
  obtain ⟨_, b₃, ht, h⟩ := bind_ok h
  have ht := tryWrite_ok ht
  obtain ⟨ticks, -, rfl⟩ := map_eq_some_iff.mp ht
  obtain ⟨_, b₄, hm, h⟩ := bind_ok h
  cases hm
  obtain ⟨rfl, -⟩ := pure_ok h
  exact ⟨hbooks, hfills⟩

/-- A tick that is stored: the quotes on the opened account, and the end. -/
structure TickRun (c : Context) (quotes : List Quote) (b b' : Book) (m : Metric) : Prop where
  unknown : (b.ticks.find? c.tickId).isSome = false
  forward : b.account.lastTs ≤ c.now
  handled : ∃ s b₁, handleAll (freshContext c b.account) (freshContext c b.account).valid
      (openTick (freshContext c b.account) b.account) b = (b₁, .ok s) ∧
    finish (freshContext c b.account) quotes s b₁ = (b', .ok m)

theorem tick_run {c : Context} {b b' : Book} {x : Option Metric}
    (h : tick c quotes b = (b', .ok x)) : x = none ∧ b' = b ∨ ∃ m, x = some m ∧ TickRun c quotes b b' m := by
  obtain ⟨known, b₁, hk, h⟩ := bind_ok h
  cases hk
  obtain ⟨s, b₂, hs, h⟩ := bind_ok h
  cases hs
  split at h
  · obtain ⟨rfl, rfl⟩ := pure_ok h
    exact .inl ⟨rfl, rfl⟩
  · next hunknown =>
    split at h
    · exact absurd h throw_ok
    · next hforward =>
      obtain ⟨s', b₃, ha, h⟩ := bind_ok h
      obtain ⟨m, b₄, hf, h⟩ := bind_ok h
      obtain ⟨rfl, rfl⟩ := pure_ok h
      exact .inr ⟨m, rfl, by simpa using hunknown, not_lt.mp hforward, s', b₃, ha, hf⟩

/-- What a call does to the book, and what it answers when it does. -/
theorem process_run (h : Host) (market : Market) (limits : Limits) (call : Call) (b : Book) :
    ((process h market limits call b).1 = b ∧ ∀ m, (process h market limits call b).2 ≠ .ok (.metric m)) ∨
      ∃ c m, context h market limits call = .ok c ∧ TickRun c call.quotes b (process h market limits call b).1 m := by
  unfold process
  cases hc : context h market limits call with
  | error e => exact .inl ⟨rfl, fun m hm => by cases hm⟩
  | ok c =>
    dsimp only
    cases ht : Statements.transaction (tick c call.quotes) b with
    | mk b₁ x =>
      cases x with
      | error e =>
        have herr := transaction_error (m := tick c call.quotes) (s := b) (e := e) (by rw [ht])
        rw [ht] at herr
        exact .inl ⟨herr, fun m hm => by cases hm⟩
      | ok x =>
        rcases tick_run (transaction_ok ht) with ⟨rfl, rfl⟩ | ⟨m, rfl, hrun⟩
        · exact .inl ⟨rfl, fun m hm => by cases hm⟩
        · exact .inr ⟨c, m, rfl, hrun⟩

/-- A tick that is stored: the quotes are handled on the opened account, and what comes of it is the new account. -/
structure Ticked (c : Context) (b b' : Book) : Prop where
  unknown : (b.ticks.find? c.tickId).isSome = false
  forward : ¬ c.now < b.account.lastTs
  handled : ∃ s b₁, handleAll (freshContext c b.account) (freshContext c b.account).valid
      (openTick (freshContext c b.account) b.account) b = (b₁, .ok s) ∧
    SameBooks s b'.account ∧ b'.fills = b₁.fills

theorem TickRun.ticked (h : TickRun c quotes b b' m) : Ticked c b b' := by
  obtain ⟨s, b₁, hall, hfinish⟩ := h.handled
  obtain ⟨hbooks, hfills⟩ := finish_ok hfinish
  exact ⟨h.unknown, not_lt.mpr h.forward, s, b₁, hall, hbooks, hfills⟩

/-- What a call does to the book: nothing, or a tick. -/
theorem process_book (h : Host) (market : Market) (limits : Limits) (call : Call) (b : Book) :
    (process h market limits call b).1 = b ∨
      ∃ c, context h market limits call = .ok c ∧ Ticked c b (process h market limits call b).1 := by
  rcases process_run h market limits call b with ⟨heq, -⟩ | ⟨c, m, hc, hrun⟩
  · exact .inl heq
  · exact .inr ⟨c, hc, hrun.ticked⟩

/-- A call that raises leaves the book as it was. -/
theorem process_error {h : Host} {market : Market} {limits : Limits} {call : Call} {e : Raised}
    (hp : (process h market limits call b).2 = .error e) : (process h market limits call b).1 = b := by
  unfold process at hp ⊢
  cases hc : context h market limits call with
  | error e' => rfl
  | ok c =>
    rw [hc] at hp
    dsimp only at hp ⊢
    cases ht : Statements.transaction (tick c call.quotes) b with
    | mk b₁ x =>
      rw [ht] at hp
      cases x with
      | error e' =>
        have herr := transaction_error (m := tick c call.quotes) (s := b) (e := e') (by rw [ht])
        rw [ht] at herr
        exact herr
      | ok x =>
        cases x with
        | none => cases hp
        | some m => cases hp

end Docich.Markets
