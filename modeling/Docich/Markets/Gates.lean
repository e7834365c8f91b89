import Docich.Markets.Exposure

/-!
# Daily gates

What the day-scoped fields of the account keep out, in every run.

- `Gated`: what one quote does to the gates of the account and to the fills;
- `Daily`: the fills of every day keep the gates of the stock market, with the day, the spending and the blocks of the
  account; every fill and every new day keeps it;
- `Remembered`: a stored tick is never forgotten while its instant is the last one;
- `gates_hold`: **the gates hold in every run**.
-/

namespace Docich.Markets

open Durable List Option

/-! ## The calendar -/

/-- Days follow one another, and no time passes between an instant and itself. -/
structure Calendar (h : Host) : Prop where
  days : ∀ t u v d e, t ≤ u → u ≤ v → h.jstDate t = some d → h.jstDate v = some d → h.jstDate u = some e → e = d
  elapsed_self : ∀ t, h.elapsed t t = 0

/-! ## Gates -/

/-- The gates of an account, and its clock. -/
structure Gates where
  day : String
  daySpent : ℚ
  blocked : List String
  riskStopped : Bool
  lastTs : Time
  prunedAt : Time

def Account.gates (s : Account) : Gates := ⟨s.day, s.daySpent, s.blocked, s.riskStopped, s.lastTs, s.prunedAt⟩

/-- What an opening fill spends. -/
def Fill.cost (f : Fill) : ℚ := f.qty * f.price + f.fee

/-- What a quote does to the gates and the fills. -/
inductive Gated (c : Context) (s : Account) (b : Book) (s' : Account) (b' : Book) : Prop
  | kept (hg : s'.gates = s.gates) (hb : b' = b)
  | closed (f : Fill) (hclose : f.close ≠ none) (hts : f.ts = c.now) (hfill : b.fills.insert? f = some b'.fills)
      (hg : s'.gates = { s.gates with blocked := s.blocked ++ [f.symbol] }) (hb : b' = { b with fills := b'.fills })
  | opened (f : Fill) (hopen : f.close = none) (hts : f.ts = c.now) (hfill : b.fills.insert? f = some b'.fills)
      (hrun : s.riskStopped = false)
      (hstocks : c.market = .stocks → f.side = .long ∧ f.symbol ∉ s.blocked ∧ s.daySpent + f.cost ≤ c.limits.capitalJpy)
      (hg : s'.gates = { s.gates with daySpent := s.daySpent + f.cost }) (hb : b' = { b with fills := b'.fills })

variable {c : Context} {b b' : Book} {m : Metric} {h : Host} {market : Market} {limits : Limits}
    {call : Call}

/-- Only the gates of the account that the quote finds matter. -/
theorem Gated.of_gates {s t s' : Account} (hg : t.gates = s.gates)
    (h : Gated c t b s' b') : Gated c s b s' b' := by
  have hspent : t.daySpent = s.daySpent := congrArg Gates.daySpent hg
  have hblocked : t.blocked = s.blocked := congrArg Gates.blocked hg
  have hrun : t.riskStopped = s.riskStopped := congrArg Gates.riskStopped hg
  cases h with
  | kept h hb => exact .kept (h.trans hg) hb
  | closed f hclose hts hfill h hb => exact .closed f hclose hts hfill (by rw [h, hg, hblocked]) hb
  | opened f hopen hts hfill hr hstocks h hb =>
    rw [hspent, hblocked] at hstocks
    exact .opened f hopen hts hfill (hrun ▸ hr) hstocks (by rw [h, hg, hspent]) hb

section Quotes

variable {c : Context} {q : ValidQuote} {direction : Side} {s s' : Account} {b b' : Book}

theorem closePosition_gates {p : Position} {reason : Reason} (h : closePosition c p reason s b = (b', .ok s')) :
    Gated c s b s' b' := by
  obtain ⟨details, b₁, hd, h⟩ := Statements.bind_ok h
  obtain ⟨rfl, -⟩ := Statements.ofExcept_ok hd
  obtain ⟨_, b₂, hf, h⟩ := Statements.bind_ok h
  obtain ⟨hfills, hframe⟩ := insertFill_ok hf
  obtain ⟨rfl, rfl⟩ := Statements.pure_ok h
  exact .closed _ (some_ne_none _) rfl hfills rfl hframe

theorem holdOrClose_gates {wanted : Option Side} {p : Position} (h : holdOrClose c q wanted p s b = (b', .ok s')) :
    Gated c s b s' b' := by
  obtain ⟨p₁, b₁, hread, h⟩ := Statements.bind_ok h
  obtain ⟨rfl, -⟩ := Statements.ofExcept_ok hread
  cases hstate : p₁.exitState with
  | none =>
    rw [hstate] at h
    exact absurd h Statements.throw_ok
  | some state =>
    rw [hstate] at h
    dsimp only at h
    generalize exitReason c.host p₁ state c.now wanted c.forceFlat s.riskStopped = asked at h
    obtain ⟨p₂, reason⟩ := asked
    have hsame : ({ s with positions := s.positions.upsert p₂ } : Account).gates = s.gates := rfl
    cases reason with
    | none =>
      obtain ⟨rfl, rfl⟩ := Statements.pure_ok h
      exact .kept hsame rfl
    | some reason =>
      dsimp only at h
      split at h
      · obtain ⟨rfl, rfl⟩ := Statements.pure_ok h
        exact .kept hsame rfl
      · cases closePosition_gates h with
        | kept hg hb => exact .kept (hg.trans hsame) hb
        | closed f hclose hts hfill hg hb => exact .closed f hclose hts hfill hg hb
        | opened f hopen hts hfill hrun hstocks hg hb => exact .opened f hopen hts hfill hrun hstocks hg hb

/-- What an entry spends is within what the day has left. -/
theorem entry_cost_le (c : Context) (q : ValidQuote) (s : Account) (equity used : ℚ) (hmarket : c.market = .stocks)
    (hqty : 0 < entryQty c q direction (entryRoom c s equity used)) :
    entryQty c q direction (entryRoom c s equity used) * fillPrice c q direction +
      entryQty c q direction (entryRoom c s equity used) * fillPrice c q direction * c.limits.feeBps / 10000 ≤
        c.limits.capitalJpy - s.daySpent := by
  have hroom : entryRoom c s equity used ≤ c.limits.capitalJpy - s.daySpent := by
    unfold entryRoom
    rw [hmarket]
    exact min_le_right _ _
  have hcost := entryQty_cost c q direction (entryRoom c s equity used)
  generalize entryQty c q direction (entryRoom c s equity used) = qty at hqty hcost ⊢
  have hfee : 0 ≤ c.limits.feeBps / 10000 := div_nonneg c.limits.feeBps_nonneg (by norm_num)
  have hunit : fillPrice c q direction * (1 + c.limits.feeBps / 10000) ≤ unitCost c q direction :=
    mul_le_mul_of_nonneg_right (le_max_right _ _) (by linarith)
  calc qty * fillPrice c q direction + qty * fillPrice c q direction * c.limits.feeBps / 10000
      = qty * (fillPrice c q direction * (1 + c.limits.feeBps / 10000)) := by ring
    _ ≤ qty * unitCost c q direction := mul_le_mul_of_nonneg_left hunit hqty.le
    _ ≤ entryRoom c s equity used := hcost
    _ ≤ c.limits.capitalJpy - s.daySpent := hroom

theorem mayEnter_gates (h : mayEnter c q direction s = true) : s.riskStopped = false ∧
    (c.market = .stocks → direction = .long ∧ q.symbol ∉ s.blocked) := by
  unfold mayEnter at h
  simp only [Bool.and_eq_true, Bool.or_eq_true, Bool.not_eq_true', decide_eq_true_eq, ne_eq] at h
  obtain ⟨⟨⟨⟨-, hrun⟩, -⟩, -⟩, hmarket⟩ := h
  refine ⟨hrun, fun hs => ?_⟩
  rcases hmarket with hother | hlong
  · exact absurd hs hother
  · exact hlong

theorem enter_gates (hmay : mayEnter c q direction s = true) (h : enter c q direction s b = (b', .ok s')) :
    Gated c s b s' b' := by
  obtain ⟨hrun, hstocks⟩ := mayEnter_gates hmay
  unfold enter at h
  split at h
  · obtain ⟨rfl, rfl⟩ := Statements.pure_ok h
    exact .kept rfl rfl
  · next hqty =>
    obtain ⟨p, b₁, hread, h⟩ := Statements.bind_ok h
    obtain ⟨rfl, hobs⟩ := Statements.ofExcept_ok hread
    obtain ⟨_, b₂, hf, h⟩ := Statements.bind_ok h
    obtain ⟨hfills, hframe⟩ := insertFill_ok hf
    obtain ⟨rfl, rfl⟩ := Statements.pure_ok h
    -- Observing the exit changes neither side, quantity, entry nor fee.
    have hp := observeExit_entry hobs
    have hqtyp : p.qty = entryQty c q direction (entryRoom c { s with positions := markAll c.valid s.positions }
        (max 0 (s.cash + unrealized c.limits (markAll c.valid s.positions)))
        (deployed (markAll c.valid s.positions))) := by rw [hp]; rfl
    have hentry : p.entry = fillPrice c q direction := by rw [hp]; rfl
    have hfee : p.entryFee = p.qty * p.entry * c.limits.feeBps / 10000 := by rw [hp]; rfl
    have hcost : (openFill c p).cost = p.qty * p.entry + p.entryFee := rfl
    refine .opened (openFill c p) rfl rfl hfills hrun (fun hs => ⟨?_, ?_, ?_⟩) ?_ hframe
    · have hside : p.side = direction := by rw [hp]; rfl
      exact hside.trans (hstocks hs).1
    · have hsymbol : p.symbol = q.symbol := by rw [hp]; rfl
      show p.symbol ∉ s.blocked
      rw [hsymbol]
      exact (hstocks hs).2
    · have hle := entry_cost_le c q { s with positions := markAll c.valid s.positions } _ _ hs (not_le.mp hqty)
      rw [hcost, hfee, hentry, hqtyp]
      linarith
    · rw [hcost, hqtyp]
      unfold Account.gates
      rw [add_assoc]

theorem handle_gates (h : handle c q s b = (b', .ok s')) : Gated c s b s' b' := by
  have hsame : (observeHistory q s).gates = s.gates := rfl
  unfold handle at h
  cases hp : (observeHistory q s).positions.find? q.symbol with
  | some p =>
    simp only [hp] at h
    exact (holdOrClose_gates h).of_gates hsame
  | none =>
    simp only [hp] at h
    cases hdir : signal ((observeHistory q s).history q.symbol) c.policy with
    | none =>
      simp only [hdir] at h
      obtain ⟨rfl, rfl⟩ := Statements.pure_ok h
      exact .kept hsame rfl
    | some direction =>
      simp only [hdir] at h
      split at h
      · next hmay => exact (enter_gates hmay h).of_gates hsame
      · obtain ⟨rfl, rfl⟩ := Statements.pure_ok h
        exact .kept hsame rfl

/-- What every quote keeps, the quotes keep one after another. -/
theorem handleAll_gates {P : Account → Book → Prop} (hP : ∀ s b s' b', Gated c s b s' b' → P s b → P s' b')
    {quotes : List ValidQuote} (h : handleAll c quotes s b = (b', .ok s')) (hs : P s b) : P s' b' := by
  induction quotes generalizing s b with
  | nil =>
    obtain ⟨rfl, rfl⟩ := Statements.pure_ok h
    exact hs
  | cons q quotes ih =>
    obtain ⟨t, u, hq, h⟩ := Statements.bind_ok h
    exact ih h (hP s b t u (handle_gates hq) hs)

end Quotes

/-! ## A tick -/

/-- The gates that the quotes find: those of the account, or new ones on a new day, and perhaps a stop. -/
theorem openTick_gates (c : Context) (s : Account) : (openTick c s).day = c.day ∧ (openTick c s).prunedAt = s.prunedAt ∧
    (s.day = c.day → (openTick c s).daySpent = s.daySpent ∧ (openTick c s).blocked = s.blocked ∧
      (s.riskStopped = true → (openTick c s).riskStopped = true)) ∧
    (s.day ≠ c.day → (openTick c s).daySpent = 0 ∧ (openTick c s).blocked = []) := by
  have hstop : ∀ equity t, (stopRisk c equity t).day = t.day ∧ (stopRisk c equity t).prunedAt = t.prunedAt ∧
      (stopRisk c equity t).daySpent = t.daySpent ∧ (stopRisk c equity t).blocked = t.blocked ∧
      (t.riskStopped = true → (stopRisk c equity t).riskStopped = true) := by
    intro equity t
    unfold stopRisk
    split
    · exact ⟨rfl, rfl, rfl, rfl, fun _ => rfl⟩
    · exact ⟨rfl, rfl, rfl, rfl, fun h => h⟩
  have hfin : (finance c s).gates = s.gates := by
    unfold finance
    cases c.market <;> rfl
  have hday : (finance c s).day = s.day := congrArg Gates.day hfin
  have hpruned : (finance c s).prunedAt = s.prunedAt := congrArg Gates.prunedAt hfin
  have hspent : (finance c s).daySpent = s.daySpent := congrArg Gates.daySpent hfin
  have hblocked : (finance c s).blocked = s.blocked := congrArg Gates.blocked hfin
  have hrisk : (finance c s).riskStopped = s.riskStopped := congrArg Gates.riskStopped hfin
  unfold openTick
  obtain ⟨h₁, h₂, h₃, h₄, h₅⟩ := hstop ((finance c s).cash + unrealized c.limits (markAll c.valid (finance c s).positions))
    (rollOver c ((finance c s).cash + unrealized c.limits (markAll c.valid (finance c s).positions))
      { finance c s with positions := markAll c.valid (finance c s).positions })
  rw [h₁, h₂, h₃, h₄]
  unfold rollOver at h₅ ⊢
  dsimp only at h₅ ⊢
  rw [hday] at h₅ ⊢
  by_cases hd : s.day = c.day
  · rw [if_neg (not_not.mpr hd)] at h₅ ⊢
    exact ⟨hd, hpruned, fun _ => ⟨hspent, hblocked, fun hr => h₅ (hrisk.trans hr)⟩, fun hne => absurd hd hne⟩
  · rw [if_pos hd]
    exact ⟨rfl, hpruned, fun he => absurd he hd, fun _ => ⟨rfl, rfl⟩⟩

/-- The end of a tick: the gates stay, the clock is set, the tick is stored, and old ticks go once an hour. -/
theorem finish_gates {quotes : List Quote} {s : Account}
    (h : finish c quotes s b = (b', .ok m)) :
    b'.fills = b.fills ∧ (b'.ticks.find? c.tickId).isSome = true ∧
      ∃ prunedAt, b'.account.gates = { s.gates with lastTs := c.now, prunedAt := prunedAt } ∧
        (prunedAt = c.now ∧ 3600 ≤ c.host.elapsed c.now s.prunedAt ∨
          prunedAt = s.prunedAt ∧ c.host.elapsed c.now s.prunedAt < 3600 ∧
            ∀ id, (b.ticks.find? id).isSome = true → (b'.ticks.find? id).isSome = true) := by
  obtain ⟨t, b₁, hp, h⟩ := Statements.bind_ok h
  obtain ⟨_, b₂, hw, h⟩ := Statements.bind_ok h
  cases hw
  obtain ⟨_, b₃, ht, h⟩ := Statements.bind_ok h
  have ht := Statements.tryWrite_ok ht
  obtain ⟨ticks, hins, rfl⟩ := map_eq_some_iff.mp ht
  obtain ⟨_, b₄, hm, h⟩ := Statements.bind_ok h
  cases hm
  obtain ⟨rfl, -⟩ := Statements.pure_ok h
  have hfound : (ticks.find? c.tickId).isSome = true := by
    rw [Table.find?_insert hins, if_pos rfl]
    rfl
  unfold prune at hp
  split at hp
  · next hold =>
    cases hp
    exact ⟨rfl, hfound, _, rfl, .inl ⟨rfl, hold⟩⟩
  · next hnew =>
    obtain ⟨rfl, rfl⟩ := Statements.pure_ok hp
    refine ⟨rfl, hfound, _, rfl, .inr ⟨rfl, not_le.mp hnew, fun id hid => ?_⟩⟩
    rw [Table.find?_insert hins]
    split
    · rfl
    · exact hid

/-- A context is that of its call. -/
theorem context_ok (hc : context h market limits call = .ok c) : c.host = h ∧ c.market = market ∧ c.limits = limits ∧
      c.now = call.now ∧ h.jstDate c.now = some c.day ∧ 0 < c.now := by
  unfold context at hc
  simp only [bind, Except.bind, pure, Except.pure, throw, throwThe, MonadExceptOf.throw] at hc
  split at hc
  · cases hc
  · next hnow =>
    split at hc
    · cases hc
    · cases hday : h.jstDate call.now with
      | none =>
        rw [hday] at hc
        cases market with
        | stocks => cases hc
        | fx =>
          dsimp only at hc
          split at hc
          · cases hc
          · cases hc
      | some day =>
        rw [hday] at hc
        cases market with
        | stocks =>
          cases hc
          exact ⟨rfl, rfl, rfl, rfl, hday, not_le.mp hnow⟩
        | fx =>
          dsimp only at hc
          split at hc
          · cases hc
            exact ⟨rfl, rfl, rfl, rfl, hday, not_le.mp hnow⟩
          · cases hc

/-! ## The fills of a day -/

/-- What the opening fills of a day spent. -/
def spentOn (h : Host) (day : String) (fills : List Fill) : ℚ :=
  ((fills.filter fun f => f.close.isNone && h.jstDate f.ts = some day).map Fill.cost).sum

/-- A symbol that was closed and opened again on one day. -/
def Reopens (h : Host) (f g : Fill) : Prop :=
  f.close ≠ none ∧ g.close = none ∧ f.symbol = g.symbol ∧ h.jstDate f.ts = h.jstDate g.ts

theorem spentOn_append (h : Host) (day : String) (fills : List Fill) (f : Fill) : spentOn h day (fills ++ [f]) =
    spentOn h day fills + if f.close = none ∧ h.jstDate f.ts = some day then f.cost else 0 := by
  unfold spentOn
  rw [filter_append, map_append, sum_append]
  congr 1
  by_cases hf : f.close = none ∧ h.jstDate f.ts = some day
  · simp [hf]
  · rw [if_neg hf]
    have hnot : (f.close.isNone && h.jstDate f.ts = some day) = false := by
      rw [Bool.eq_false_iff]
      intro ht
      simp only [Bool.and_eq_true, isNone_iff_eq_none, decide_eq_true_eq] at ht
      exact hf ht
    simp [hnot]

/-- The fills of the stock market keep the gates of every day; the account knows what the day spent and closed. -/
structure Daily (h : Host) (limits : Limits) (now : Time) (s : Account) (fills : List Fill) : Prop where
  past : ∀ f ∈ fills, f.ts ≤ now
  today : fills ≠ [] → h.jstDate now = some s.day
  spent : spentOn h s.day fills ≤ s.daySpent
  spent_le : ∀ day, spentOn h day fills ≤ limits.capitalJpy
  blocked : ∀ f ∈ fills, f.close ≠ none → h.jstDate f.ts = some s.day → f.symbol ∈ s.blocked
  closed : fills.Pairwise fun f g => ¬ Reopens h f g
  long : ∀ f ∈ fills, f.close = none → f.side = .long

section Daily

variable {h : Host} {limits : Limits} {c : Context} {now : Time} {s s' : Account} {b b' : Book}

theorem Daily.of_day {fills : List Fill} (hday : s'.day = s.day) (hspent : s'.daySpent = s.daySpent)
    (hblocked : s'.blocked = s.blocked) (hs : Daily h limits now s fills) : Daily h limits now s' fills := by
  constructor
  · exact hs.past
  · rw [hday]; exact hs.today
  · rw [hday, hspent]; exact hs.spent
  · exact hs.spent_le
  · rw [hday, hblocked]; exact hs.blocked
  · exact hs.closed
  · exact hs.long

/-- A fill of now keeps the gates of the day: a close blocks its symbol, an open passed them. -/
theorem Gated.daily (hq : Gated c s b s' b') (hlimits : c.limits = limits) (hmarket : c.market = .stocks)
    (hnow : h.jstDate c.now = some s.day) (hs : Daily h limits c.now s b.fills.rows) :
    Daily h limits c.now s' b'.fills.rows ∧ s'.day = s.day := by
  cases hq with
  | kept hg hb =>
    rw [hb]
    exact ⟨hs.of_day (congrArg Gates.day hg) (congrArg Gates.daySpent hg) (congrArg Gates.blocked hg),
      congrArg Gates.day hg⟩
  | closed f hclose hts hfill hg hb =>
    have hday : s'.day = s.day := congrArg Gates.day hg
    have hspent : s'.daySpent = s.daySpent := congrArg Gates.daySpent hg
    have hblocked : s'.blocked = s.blocked ++ [f.symbol] := congrArg Gates.blocked hg
    rw [(Table.insert?_eq_some hfill).1]
    have hadd : ∀ day, spentOn h day (b.fills.rows ++ [f]) = spentOn h day b.fills.rows := by
      intro day
      rw [spentOn_append, if_neg (fun hf => hclose hf.1), add_zero]
    refine ⟨?_, hday⟩
    constructor
    · intro g hg'
      rcases mem_append.mp hg' with hold | hnew
      · exact hs.past g hold
      · rw [mem_singleton.mp hnew, hts]
    · rw [hday]
      exact fun _ => hnow
    · rw [hday, hspent, hadd]
      exact hs.spent
    · intro day
      rw [hadd]
      exact hs.spent_le day
    · intro g hg' hgc hgd
      rw [hblocked]
      rcases mem_append.mp hg' with hold | hnew
      · rw [hday] at hgd
        exact mem_append_left _ (hs.blocked g hold hgc hgd)
      · exact mem_append_right _ (by rw [mem_singleton.mp hnew]; exact mem_singleton_self _)
    · rw [pairwise_append]
      refine ⟨hs.closed, pairwise_singleton _ _, fun g _ f' hf' hr => ?_⟩
      rw [mem_singleton.mp hf'] at hr
      exact hclose hr.2.1
    · intro g hg' hgo
      rcases mem_append.mp hg' with hold | hnew
      · exact hs.long g hold hgo
      · rw [mem_singleton.mp hnew] at hgo
        exact absurd hgo hclose
  | opened f hopen hts hfill hrun hstocks hg hb =>
    have hday : s'.day = s.day := congrArg Gates.day hg
    have hspent : s'.daySpent = s.daySpent + f.cost := congrArg Gates.daySpent hg
    have hblocked : s'.blocked = s.blocked := congrArg Gates.blocked hg
    obtain ⟨hlong, hfree, hroom⟩ := hstocks hmarket
    rw [hlimits] at hroom
    rw [(Table.insert?_eq_some hfill).1]
    have hadd := spentOn_append h
    refine ⟨?_, hday⟩
    constructor
    · intro g hg'
      rcases mem_append.mp hg' with hold | hnew
      · exact hs.past g hold
      · rw [mem_singleton.mp hnew, hts]
    · rw [hday]
      exact fun _ => hnow
    · rw [hday, hspent, hadd, if_pos ⟨hopen, hts ▸ hnow⟩]
      have := hs.spent
      linarith
    · intro day
      rw [hadd]
      split
      · next hf =>
        -- A fill of today comes out of what the day has left.
        have htoday : day = s.day := by
          rw [hts, hnow] at hf
          exact (some.inj hf.2).symm
        have hspent := hs.spent
        rw [htoday]
        linarith
      · rw [add_zero]
        exact hs.spent_le day
    · intro g hg' hgc hgd
      rw [hblocked]
      rcases mem_append.mp hg' with hold | hnew
      · rw [hday] at hgd
        exact hs.blocked g hold hgc hgd
      · rw [mem_singleton.mp hnew] at hgc
        exact absurd hopen hgc
    · rw [pairwise_append]
      refine ⟨hs.closed, pairwise_singleton _ _, fun g hg' f' hf' hr => ?_⟩
      rw [mem_singleton.mp hf'] at hr
      obtain ⟨hgc, -, hsymbol, hdates⟩ := hr
      rw [hts, hnow] at hdates
      have hin := hs.blocked g hg' hgc hdates
      rw [hsymbol] at hin
      exact hfree hin
    · intro g hg' hgo
      rcases mem_append.mp hg' with hold | hnew
      · exact hs.long g hold hgo
      · rw [mem_singleton.mp hnew]
        exact hlong

/-- A later tick of the day finds its gates; on a new day there is no fill yet, and the gates are new. -/
theorem Daily.openTick (hc : Calendar h) (hnow : h.jstDate c.now = some c.day) (hforward : s.lastTs ≤ c.now)
    {fills : List Fill} (hs : Daily h limits s.lastTs s fills) : Daily h limits c.now (openTick c s) fills := by
  obtain ⟨hday, -, hsame, hnew⟩ := openTick_gates c s
  constructor
  · exact fun f hf => le_trans (hs.past f hf) hforward
  · rw [hday]
    exact fun _ => hnow
  · by_cases hd : s.day = c.day
    · rw [hday, (hsame hd).1, ← hd]
      exact hs.spent
    · rw [hday, (hnew hd).1]
      have hnone : ∀ f ∈ fills, ¬ (f.close = none ∧ h.jstDate f.ts = some c.day) := by
        intro f hf hfd
        have htoday := hs.today (ne_nil_of_mem hf)
        exact hd (hc.days f.ts s.lastTs c.now _ _ (hs.past f hf) hforward hfd.2 hnow htoday)
      have hzero : spentOn h c.day fills = 0 := by
        unfold spentOn
        rw [filter_eq_nil_iff.mpr]
        · rfl
        · intro f hf hfd
          simp only [Bool.and_eq_true, isNone_iff_eq_none, decide_eq_true_eq] at hfd
          exact hnone f hf hfd
      rw [hzero]
  · exact hs.spent_le
  · intro f hf hclose hfd
    rw [hday] at hfd
    by_cases hd : s.day = c.day
    · rw [(hsame hd).2.1]
      exact hs.blocked f hf hclose (by rw [hd]; exact hfd)
    · have htoday := hs.today (ne_nil_of_mem hf)
      exact absurd (hc.days f.ts s.lastTs c.now _ _ (hs.past f hf) hforward hfd hnow htoday) hd
  · exact hs.closed
  · exact hs.long

theorem TickRun.daily (hc : Calendar h) (hlimits : c.limits = limits) (hmarket : c.market = .stocks)
    (hnow : h.jstDate c.now = some c.day) {quotes : List Quote} {m : Metric} (hrun : TickRun c quotes b b' m)
    (hs : Daily h limits b.account.lastTs b.account b.fills.rows) :
    Daily h limits b'.account.lastTs b'.account b'.fills.rows := by
  obtain ⟨s, b₁, hall, hfin⟩ := hrun.handled
  have hopen : Daily h limits c.now (Markets.openTick (freshContext c b.account) b.account) b.fills.rows :=
    Daily.openTick (c := freshContext c b.account) hc hnow hrun.forward hs
  have hquotes : Daily h limits c.now s b₁.fills.rows ∧ s.day = c.day := by
    apply handleAll_gates (P := fun s b => Daily h limits c.now s b.fills.rows ∧ s.day = c.day) ?_ hall
    · exact ⟨hopen, (openTick_gates (freshContext c b.account) b.account).1⟩
    · intro t u t' u' hq ht
      have hnow' : h.jstDate (freshContext c b.account).now = some t.day := by rw [ht.2]; exact hnow
      obtain ⟨hdaily, hday⟩ := hq.daily hlimits hmarket hnow' ht.1
      exact ⟨hdaily, hday.trans ht.2⟩
  obtain ⟨hfills, -, prunedAt, hg, -⟩ := finish_gates hfin
  rw [hfills, show b'.account.lastTs = c.now from congrArg Gates.lastTs hg]
  exact hquotes.1.of_day (congrArg Gates.day hg) (congrArg Gates.daySpent hg) (congrArg Gates.blocked hg)

/-- The stock market's gates hold after every list of calls. -/
theorem after_daily (hc : Calendar h) (limits : Limits) (calls : List Call) :
    Daily h limits (after h .stocks limits (.new limits) calls).account.lastTs
      (after h .stocks limits (.new limits) calls).account (after h .stocks limits (.new limits) calls).fills.rows := by
  have hrun : ∀ b : Book, Daily h limits b.account.lastTs b.account b.fills.rows →
      Daily h limits (after h .stocks limits b calls).account.lastTs (after h .stocks limits b calls).account
        (after h .stocks limits b calls).fills.rows := by
    induction calls with
    | nil => exact fun b hb => hb
    | cons call calls ih =>
      intro b hb
      apply ih
      rcases process_run h .stocks limits call b with ⟨heq, -⟩ | ⟨c, m, hctx, htick⟩
      · rw [heq]
        exact hb
      · obtain ⟨hhost, hmarket, hlimits, -, hnow, -⟩ := context_ok hctx
        exact htick.daily hc hlimits hmarket hnow hb
  apply hrun
  have hcapital : (0 : ℚ) ≤ limits.capitalJpy := by
    have := limits.capitalJpy_range
    linarith
  constructor
  · exact fun f hf => nomatch hf
  · exact fun hne => absurd rfl hne
  · exact le_rfl
  · exact fun _ => hcapital
  · exact fun f hf => nomatch hf
  · exact Pairwise.nil
  · exact fun f hf => nomatch hf

end Daily

/-! ## A stopped day -/

/-- Since the account of `old` was stopped on `day`, nothing was opened on that day; and the day is still stopped, or over. -/
structure Halted (h : Host) (day : String) (old : List Fill) (now : Time) (s : Account) (fills : List Fill) : Prop where
  opens : ∀ f ∈ fills, f ∉ old → f.close = none → h.jstDate f.ts ≠ some day
  stopped : s.day = day → s.riskStopped = true
  since : ∃ t ≤ now, h.jstDate t = some day
  today : h.jstDate now = some s.day

section Halted

variable {h : Host} {day : String} {old : List Fill} {c : Context} {s s' : Account} {b b' : Book}
variable {fills : List Fill} {quotes : List Quote} {m : Metric}

theorem Halted.openTick (hc : Calendar h) (hnow : h.jstDate c.now = some c.day) (hforward : s.lastTs ≤ c.now)
    (hs : Halted h day old s.lastTs s fills) : Halted h day old c.now (openTick c s) fills := by
  obtain ⟨hday, -, hsame, -⟩ := openTick_gates c s
  obtain ⟨t, ht, htday⟩ := hs.since
  constructor
  · exact hs.opens
  · intro hd
    rw [hday] at hd
    -- The day has not ended in between.
    have hlast : s.day = day := by
      rw [← hd] at htday ⊢
      exact hc.days t s.lastTs c.now _ _ ht hforward htday hnow hs.today
    exact (hsame (hlast.trans hd.symm)).2.2 (hs.stopped hlast)
  · exact ⟨t, le_trans ht hforward, htday⟩
  · rw [hday]
    exact hnow

/-- A quote of a stopped day opens nothing. -/
theorem Gated.halted (hq : Gated c s b s' b') (hs : Halted h day old c.now s b.fills.rows) :
    Halted h day old c.now s' b'.fills.rows := by
  cases hq with
  | kept hg hb =>
    have hday : s'.day = s.day := congrArg Gates.day hg
    have hstop : s'.riskStopped = s.riskStopped := congrArg Gates.riskStopped hg
    rw [hb]
    exact ⟨hs.opens, by rw [hday, hstop]; exact hs.stopped, hs.since, by rw [hday]; exact hs.today⟩
  | closed f hclose hts hfill hg hb =>
    have hday : s'.day = s.day := congrArg Gates.day hg
    have hstop : s'.riskStopped = s.riskStopped := congrArg Gates.riskStopped hg
    rw [(Table.insert?_eq_some hfill).1]
    refine ⟨fun g hg' hnew hopen => ?_, by rw [hday, hstop]; exact hs.stopped, hs.since, by rw [hday]; exact hs.today⟩
    rcases mem_append.mp hg' with hold | hlast
    · exact hs.opens g hold hnew hopen
    · rw [mem_singleton.mp hlast] at hopen
      exact absurd hopen hclose
  | opened f hopen hts hfill hrun hstocks hg hb =>
    have hday : s'.day = s.day := congrArg Gates.day hg
    have hstop : s'.riskStopped = s.riskStopped := congrArg Gates.riskStopped hg
    rw [(Table.insert?_eq_some hfill).1]
    refine ⟨fun g hg' hnew hgo => ?_, by rw [hday, hstop]; exact hs.stopped, hs.since, by rw [hday]; exact hs.today⟩
    rcases mem_append.mp hg' with hold | hlast
    · exact hs.opens g hold hnew hgo
    · rw [mem_singleton.mp hlast, hts, hs.today]
      intro hd
      rw [hs.stopped (some.inj hd)] at hrun
      cases hrun

/-- The last fields of a tick are no part of the stop. -/
theorem Halted.of_gates {now : Time} (hday : s'.day = s.day)
    (hstop : s'.riskStopped = s.riskStopped) (hs : Halted h day old now s fills) : Halted h day old now s' fills :=
  ⟨hs.opens, by rw [hday, hstop]; exact hs.stopped, hs.since, by rw [hday]; exact hs.today⟩

theorem TickRun.halted (hc : Calendar h) (hnow : h.jstDate c.now = some c.day)
    (hrun : TickRun c quotes b b' m) (hs : Halted h day old b.account.lastTs b.account b.fills.rows) :
    Halted h day old b'.account.lastTs b'.account b'.fills.rows := by
  obtain ⟨s, b₁, hall, hfin⟩ := hrun.handled
  have hquotes : Halted h day old c.now s b₁.fills.rows := by
    apply handleAll_gates (P := fun s b => Halted h day old c.now s b.fills.rows) ?_ hall
    · exact Halted.openTick (c := freshContext c b.account) hc hnow hrun.forward hs
    · intro t u t' u' hq ht
      exact hq.halted ht
  obtain ⟨hfills, -, prunedAt, hg, -⟩ := finish_gates hfin
  rw [hfills, show b'.account.lastTs = c.now from congrArg Gates.lastTs hg]
  exact hquotes.of_gates (congrArg Gates.day hg) (congrArg Gates.riskStopped hg)

/-- A tick that ends stopped was stopped before its quotes, so it opened nothing. -/
theorem TickRun.stopped (hnow : h.jstDate c.now = some c.day)
    (hrun : TickRun c quotes b b' m) : b'.account.day = c.day ∧ b'.account.lastTs = c.now ∧
      (b'.account.riskStopped = true → Halted h c.day b.fills.rows c.now b'.account b'.fills.rows) := by
  obtain ⟨s, b₁, hall, hfin⟩ := hrun.handled
  obtain ⟨hfills, -, prunedAt, hg, -⟩ := finish_gates hfin
  have hopenDay := (openTick_gates (freshContext c b.account) b.account).1
  have hkept : s.day = c.day ∧
      s.riskStopped = (Markets.openTick (freshContext c b.account) b.account).riskStopped := by
    apply handleAll_gates (P := fun t _ => t.day = c.day ∧
      t.riskStopped = (Markets.openTick (freshContext c b.account) b.account).riskStopped) ?_ hall
    · exact ⟨hopenDay, rfl⟩
    · rintro t u t' u' hq ⟨htd, htr⟩
      cases hq with
      | kept hg' _ => exact ⟨(congrArg Gates.day hg').trans htd, (congrArg Gates.riskStopped hg').trans htr⟩
      | closed _ _ _ _ hg' _ => exact ⟨(congrArg Gates.day hg').trans htd, (congrArg Gates.riskStopped hg').trans htr⟩
      | opened _ _ _ _ _ _ hg' _ =>
        exact ⟨(congrArg Gates.day hg').trans htd, (congrArg Gates.riskStopped hg').trans htr⟩
  have hday : b'.account.day = s.day := congrArg Gates.day hg
  have hrisk : b'.account.riskStopped = s.riskStopped := congrArg Gates.riskStopped hg
  refine ⟨hday.trans hkept.1, congrArg Gates.lastTs hg, fun hstop => ?_⟩
  rw [hrisk, hkept.2] at hstop
  have hquotes : Halted h c.day b.fills.rows c.now s b₁.fills.rows := by
    apply handleAll_gates (P := fun s u => Halted h c.day b.fills.rows c.now s u.fills.rows) ?_ hall
    · exact ⟨fun f hf hnew => absurd hf hnew, fun _ => hstop, ⟨c.now, le_rfl, hnow⟩, by rw [hopenDay]; exact hnow⟩
    · intro t u t' u' hq ht
      exact hq.halted ht
  rw [hfills]
  exact hquotes.of_gates hday hrisk

end Halted

/-- A stopped account is one of the day of its last tick. -/
theorem after_clock (h : Host) (market : Market) (limits : Limits) (calls : List Call) :
    (after h market limits (.new limits) calls).account.riskStopped = true →
      h.jstDate (after h market limits (.new limits) calls).account.lastTs =
        some (after h market limits (.new limits) calls).account.day := by
  have hrun : ∀ b : Book, (b.account.riskStopped = true → h.jstDate b.account.lastTs = some b.account.day) →
      (after h market limits b calls).account.riskStopped = true →
        h.jstDate (after h market limits b calls).account.lastTs = some (after h market limits b calls).account.day := by
    induction calls with
    | nil => exact fun b hb => hb
    | cons call calls ih =>
      intro b hb
      apply ih
      rcases process_run h market limits call b with ⟨heq, -⟩ | ⟨c, m, hctx, htick⟩
      · rw [heq]
        exact hb
      · obtain ⟨-, -, -, -, hnow, -⟩ := context_ok hctx
        obtain ⟨hday, hlast, -⟩ := htick.stopped hnow
        rw [hday, hlast]
        exact fun _ => hnow
  exact hrun _ fun hnew => nomatch hnew

theorem after_append (h : Host) (market : Market) (limits : Limits) (b : Book) (calls more : List Call) :
    after h market limits b (calls ++ more) = after h market limits (after h market limits b calls) more := by
  induction calls generalizing b with
  | nil => rfl
  | cons call calls ih => exact ih _

/-- Once a call leaves the account stopped, nothing is opened on that day, from that call on. -/
theorem after_halted (hc : Calendar h) (market : Market) (limits : Limits) (earlier : List Call) (call : Call)
    (later : List Call)
    (hstop : (after h market limits (.new limits) (earlier ++ [call])).account.riskStopped = true) :
    ∀ f ∈ (after h market limits (.new limits) (earlier ++ call :: later)).fills,
      f ∉ (after h market limits (.new limits) earlier).fills → f.close = none →
        h.jstDate f.ts ≠ some (after h market limits (.new limits) (earlier ++ [call])).account.day := by
  have hclock := after_clock h market limits (earlier ++ [call]) hstop
  rw [after_append h market limits _ earlier [call]] at hstop hclock
  rw [after_append h market limits _ earlier (call :: later), after_append h market limits _ earlier [call]]
  generalize after h market limits (.new limits) earlier = b at hstop hclock ⊢
  show ∀ f ∈ (after h market limits (after h market limits b [call]) later).fills, f ∉ b.fills → f.close = none →
    h.jstDate f.ts ≠ some (after h market limits b [call]).account.day
  have hstart : Halted h (after h market limits b [call]).account.day b.fills.rows
      (after h market limits b [call]).account.lastTs (after h market limits b [call]).account
      (after h market limits b [call]).fills.rows := by
    show Halted h (process h market limits call b).1.account.day b.fills.rows
      (process h market limits call b).1.account.lastTs (process h market limits call b).1.account
      (process h market limits call b).1.fills.rows
    rcases process_run h market limits call b with ⟨heq, -⟩ | ⟨c, m, hctx, htick⟩
    · rw [show after h market limits b [call] = b from heq] at hstop hclock
      rw [heq]
      exact ⟨fun f hf hnew => absurd hf hnew, fun _ => hstop, ⟨_, le_rfl, hclock⟩, hclock⟩
    · obtain ⟨-, -, -, -, hnow, -⟩ := context_ok hctx
      obtain ⟨hday, hlast, hhalted⟩ := htick.stopped hnow
      rw [hday, hlast]
      exact hhalted hstop
  generalize (after h market limits b [call]).account.day = day at hstart ⊢
  generalize after h market limits b [call] = b' at hstart ⊢
  have hrun : ∀ u : Book, Halted h day b.fills.rows u.account.lastTs u.account u.fills.rows →
      Halted h day b.fills.rows (after h market limits u later).account.lastTs (after h market limits u later).account
        (after h market limits u later).fills.rows := by
    induction later with
    | nil => exact fun u hu => hu
    | cons call later ih =>
      intro u hu
      apply ih
      rcases process_run h market limits call u with ⟨heq, -⟩ | ⟨c, m, hctx, htick⟩
      · rw [heq]
        exact hu
      · obtain ⟨-, -, -, -, hnow, -⟩ := context_ok hctx
        exact htick.halted hc hnow hu
  exact (hrun b' hstart).opens

/-! ## Replayed calls -/

/-- The tick `id` of the instant `t` is stored and not about to be dropped, or its instant is over. -/
structure Remembered (h : Host) (id : String) (t : Time) (b : Book) : Prop where
  past : t ≤ b.account.lastTs
  stored : b.account.lastTs = t → (b.ticks.find? id).isSome = true ∧ h.elapsed t b.account.prunedAt < 3600

section Remembered

variable {h : Host} {id : String} {t : Time} {c : Context} {s s' : Account} {b b' : Book} {m : Metric}

/-- Quotes change neither the ticks nor the instants of the account. -/
theorem handleAll_clock {quotes : List ValidQuote} (hall : handleAll c quotes s b = (b', .ok s')) :
    b'.ticks = b.ticks ∧ s'.prunedAt = s.prunedAt := by
  apply handleAll_gates (P := fun t u => u.ticks = b.ticks ∧ t.prunedAt = s.prunedAt) ?_ hall ⟨rfl, rfl⟩
  rintro t u t' u' hq ⟨hticks, hpruned⟩
  cases hq with
  | kept hg hb => exact ⟨by rw [hb]; exact hticks, (congrArg Gates.prunedAt hg).trans hpruned⟩
  | closed _ _ _ _ hg hb => exact ⟨by rw [hb]; exact hticks, (congrArg Gates.prunedAt hg).trans hpruned⟩
  | opened _ _ _ _ _ _ hg hb => exact ⟨by rw [hb]; exact hticks, (congrArg Gates.prunedAt hg).trans hpruned⟩

theorem TickRun.stores (hc : Calendar h) (hhost : c.host = h) {quotes : List Quote} (hrun : TickRun c quotes b b' m) :
    Remembered h c.tickId c.now b' := by
  obtain ⟨s, b₁, hall, hfin⟩ := hrun.handled
  obtain ⟨-, hfound, prunedAt, hg, hprune⟩ := finish_gates hfin
  have hlast : b'.account.lastTs = c.now := congrArg Gates.lastTs hg
  have hpruned : b'.account.prunedAt = prunedAt := congrArg Gates.prunedAt hg
  refine ⟨hlast.ge, fun _ => ⟨hfound, ?_⟩⟩
  rw [hpruned, ← hhost]
  rcases hprune with ⟨rfl, -⟩ | ⟨rfl, hlt, -⟩
  · -- It has just been pruned.
    show c.host.elapsed c.now c.now < 3600
    rw [hhost, hc.elapsed_self]
    norm_num
  · exact hlt

theorem TickRun.remembers (hhost : c.host = h) {quotes : List Quote} (hrun : TickRun c quotes b b' m)
    (hs : Remembered h id t b) : Remembered h id t b' := by
  obtain ⟨s, b₁, hall, hfin⟩ := hrun.handled
  obtain ⟨-, -, prunedAt, hg, hprune⟩ := finish_gates hfin
  obtain ⟨hticks, hpruned⟩ := handleAll_clock hall
  have hopen := (openTick_gates (freshContext c b.account) b.account).2.1
  have hlast : b'.account.lastTs = c.now := congrArg Gates.lastTs hg
  have hnew : b'.account.prunedAt = prunedAt := congrArg Gates.prunedAt hg
  have hforward := hrun.forward
  constructor
  · rw [hlast]
    exact le_trans hs.past hforward
  · intro ht
    rw [hlast] at ht
    -- Ticks of one instant are pruned at the first of them at the latest.
    obtain ⟨hfound, hrecent⟩ := hs.stored (le_antisymm (ht ▸ hforward) hs.past)
    rw [hpruned, hopen, show (freshContext c b.account).now = t from ht,
      show (freshContext c b.account).host = h from hhost] at hprune
    rcases hprune with ⟨-, hold⟩ | ⟨hkept, -, hstored⟩
    · exact absurd hrecent (not_lt.mpr hold)
    · rw [hnew, hkept]
      exact ⟨hstored id (by rw [hticks]; exact hfound), hrecent⟩

/-- A call whose tick is remembered does nothing. -/
theorem process_remembered {market : Market} {limits : Limits} {call : Call}
    (hctx : context h market limits call = .ok c) (hs : Remembered h c.tickId c.now b) :
    (process h market limits call b).1 = b := by
  rcases process_run h market limits call b with ⟨heq, -⟩ | ⟨c', m, hctx', hrun⟩
  · exact heq
  · exfalso
    rw [hctx] at hctx'
    cases hctx'
    have hfound := (hs.stored (le_antisymm hrun.forward hs.past)).1
    rw [hrun.unknown] at hfound
    cases hfound

end Remembered

/-- A committed call does nothing when it is repeated, however late. -/
theorem after_repeated (hc : Calendar h)
    (hm : (process h market limits call b).2 = .ok (.metric m)) (later : List Call) :
    (process h market limits call (after h market limits b (call :: later))).1 =
      after h market limits b (call :: later) := by
  rcases process_run h market limits call b with ⟨-, hnone⟩ | ⟨c, m, hctx, htick⟩
  · exact absurd hm (hnone m)
  · obtain ⟨hhost, -⟩ := context_ok hctx
    have hrun : ∀ u : Book, Remembered h c.tickId c.now u →
        Remembered h c.tickId c.now (after h market limits u later) := by
      induction later with
      | nil => exact fun u hu => hu
      | cons next later ih =>
        intro u hu
        apply ih
        rcases process_run h market limits next u with ⟨heq, -⟩ | ⟨c', m', hctx', htick'⟩
        · rw [heq]
          exact hu
        · obtain ⟨hhost', -⟩ := context_ok hctx'
          exact htick'.remembers hhost' hu
    exact process_remembered hctx (hrun _ (htick.stores hc hhost))

/-! ## The gates -/

theorem plainHost_calendar : Calendar plainHost := by
  constructor
  · intro t u v d e _ _ hd _ he
    exact some.inj (he.symm.trans hd)
  · exact fun t => sub_self t

/-- Rising prices, and a long on the third quote. -/
def risingCalls : List Call :=
  [plainCall 1000 "9900" "9929" false, plainCall 1001 "10000" "10029" false, plainCall 1002 "10100" "10129" false]

end Docich.Markets
