import Mathlib.Algebra.BigOperators.Group.List.Basic
import Mathlib.Data.List.Sort
import Mathlib.Tactic.Linarith

/-!
# Position episodes and drawdown

`_build_episodes_from_fills` folds the fills of a symbol and a side into episodes, one for each round from flat to flat
(`rounds`), and `compute_drawdown` finds the greatest fall of an equity: `episodes_add_up`. Decimals are exact.
-/

namespace Docich.News.Episodes

open List

inductive Kind
  | opens
  | closes
  deriving DecidableEq

structure FillRecord where
  kind : Kind
  symbol : String
  side : ℤ
  qty : ℚ
  price : ℚ
  fee : ℚ
  financing : ℚ
  netPnlJpy : ℚ
  ts : ℚ

structure PositionEpisode where
  symbol : String
  side : ℤ
  openTs : ℚ
  closeTs : ℚ
  openPrice : ℚ
  closePrice : ℚ
  qty : ℚ
  openFee : ℚ
  closeFee : ℚ
  financing : ℚ
  netPnlJpy : ℚ
  holdSeconds : ℚ
  win : Bool

def FillRecord.key (f : FillRecord) : String × ℤ := (f.symbol, f.side)

/-! ## The episodes -/

/-- The variables of the loop over the fills of a key. -/
structure Tracked where
  remainingQty : ℚ := 0
  cumPnl : ℚ := 0
  firstOpenTs : ℚ := 0
  firstOpenPrice : ℚ := 0
  openFeeTotal : ℚ := 0
  financingTotal : ℚ := 0
  closeFeeTotal : ℚ := 0
  positionOpened : Bool := false
  episodes : List PositionEpisode := []

namespace Tracked

def start (s : Tracked) (f : FillRecord) : Tracked :=
  if s.positionOpened then s
  else { s with firstOpenTs := f.ts, firstOpenPrice := f.price, openFeeTotal := f.fee, positionOpened := true }

def opened (s : Tracked) (f : FillRecord) : Tracked := { s.start f with remainingQty := s.remainingQty + f.qty }

def completed (s : Tracked) (key : String × ℤ) (f : FillRecord) (closeQty : ℚ) : Tracked :=
  { remainingQty := s.remainingQty
    episodes := s.episodes ++ [
      { symbol := key.1, side := key.2, openTs := s.firstOpenTs, closeTs := f.ts, openPrice := s.firstOpenPrice,
        closePrice := f.price, qty := closeQty, openFee := s.openFeeTotal, closeFee := s.closeFeeTotal,
        financing := s.financingTotal, netPnlJpy := s.cumPnl, holdSeconds := f.ts - s.firstOpenTs, win := 0 < s.cumPnl }] }

def reduced (s : Tracked) (f : FillRecord) (closeQty : ℚ) : Tracked :=
  { s with
    cumPnl := s.cumPnl + f.netPnlJpy
    closeFeeTotal := s.closeFeeTotal + f.fee
    financingTotal := s.financingTotal + f.financing
    remainingQty := s.remainingQty - closeQty }

def closed (s : Tracked) (key : String × ℤ) (f : FillRecord) (closeQty : ℚ) : Tracked :=
  if s.remainingQty = 0 ∧ s.positionOpened then s.completed key f closeQty else s

def step (key : String × ℤ) (s : Tracked) (f : FillRecord) : Tracked :=
  match f.kind with
  | .opens => s.opened f
  | .closes =>
    if s.remainingQty ≤ 0 then s else (s.reduced f (min f.qty s.remainingQty)).closed key f (min f.qty s.remainingQty)

end Tracked

/-- The fills of a key in time order. -/
def keyFills (fills : List FillRecord) (key : String × ℤ) : List FillRecord :=
  (fills.filter fun f => f.key = key).insertionSort fun f g => f.ts ≤ g.ts

/-- The keys in the order of their first fills. -/
def keys (fills : List FillRecord) : List (String × ℤ) := (fills.map FillRecord.key).reverse.dedup.reverse

def episodesOf (fills : List FillRecord) (key : String × ℤ) : List PositionEpisode :=
  ((keyFills fills key).foldl (Tracked.step key) {}).episodes

def buildEpisodes (fills : List FillRecord) : List PositionEpisode := (keys fills).flatMap (episodesOf fills)

/-! ## Rounds

Histories are read backwards: the latest fill comes first.
-/

abbrev History : Type := List FillRecord

def total (x : FillRecord → ℚ) (past : History) : ℚ := (past.map x).sum

/-- What is open after a fill. -/
def held (f : FillRecord) (qty : ℚ) : ℚ :=
  match f.kind with
  | .opens => qty + f.qty
  | .closes => if qty ≤ 0 then qty else qty - min f.qty qty

def openQty (past : History) : ℚ := past.foldr held 0

theorem openQty_cons (f : FillRecord) (past : History) : openQty (f :: past) = held f (openQty past) := rfl

/-- The close finds something open. -/
abbrev Works (f : FillRecord) (past : History) : Prop := f.kind = .closes ∧ 0 < openQty past

def opens (past : History) : History := past.filter fun f => f.kind = .opens

/-- The closes that find something open. -/
def closes : History → History
  | [] => []
  | f :: past => if Works f past then f :: closes past else closes past

/-- A fill goes to the round under way, which ends with the close that leaves nothing open. -/
def cut (f : FillRecord) (r : List History × History) : List History × History :=
  if Works f r.2 ∧ openQty (f :: r.2) = 0 then (r.1 ++ [f :: r.2], []) else (r.1, f :: r.2)

/-- The completed rounds and the unfinished rest. -/
def rounds (past : History) : List History × History := past.foldr cut ([], [])

theorem rounds_flatten (past : History) : (rounds past).2 ++ (rounds past).1.reverse.flatten = past := by
  induction past with
  | nil => rfl
  | cons f past ih =>
    rw [rounds, foldr_cons, cut, ← rounds]
    split_ifs
    · simpa using ih
    · simpa using ih

theorem opens_ne_nil {past : History} (h : 0 < openQty past) : opens past ≠ [] := by
  induction past with
  | nil => exact absurd h (lt_irrefl _)
  | cons f past ih =>
    cases hf : f.kind with
    | opens => simp [opens, hf]
    | closes =>
      have hpast : 0 < openQty past := by
        by_contra hle
        rw [openQty_cons, held, hf] at h
        simp only [if_pos (not_lt.mp hle)] at h
        exact hle h
      simpa [opens, hf] using ih hpast

/-! ## What an episode tells of its round -/

/-- The sums over the closes of the round, what the last of them closed, and the fee of the open where there is one. -/
structure Tells (key : String × ℤ) (round : History) (e : PositionEpisode) : Prop where
  key : (e.symbol, e.side) = key
  closeFee : e.closeFee = total FillRecord.fee (closes round)
  financing : e.financing = total FillRecord.financing (closes round)
  netPnlJpy : e.netPnlJpy = total FillRecord.netPnlJpy (closes round)
  openFee : ∀ f, opens round = [f] → e.openFee = f.fee
  qty : e.qty = openQty round.tail

/-- The variables of the loop amid a round. -/
structure Tracks (key : String × ℤ) (r : List History × History) (s : Tracked) : Prop where
  remainingQty : s.remainingQty = openQty r.2
  cumPnl : s.cumPnl = total FillRecord.netPnlJpy (closes r.2)
  closeFeeTotal : s.closeFeeTotal = total FillRecord.fee (closes r.2)
  financingTotal : s.financingTotal = total FillRecord.financing (closes r.2)
  positionOpened : s.positionOpened = true ↔ opens r.2 ≠ []
  openFeeTotal : ∀ f, opens r.2 = [f] → s.openFeeTotal = f.fee
  episodes : List.Forall₂ (Tells key) r.1 s.episodes

variable {key : String × ℤ} {r : List History × History} {s : Tracked} {f : FillRecord}

theorem start_same (s : Tracked) (f : FillRecord) : (s.start f).cumPnl = s.cumPnl ∧ (s.start f).closeFeeTotal = s.closeFeeTotal ∧
    (s.start f).financingTotal = s.financingTotal ∧ (s.start f).episodes = s.episodes ∧ (s.start f).positionOpened = true := by
  unfold Tracked.start
  split_ifs with hp
  · exact ⟨rfl, rfl, rfl, rfl, hp⟩
  · exact ⟨rfl, rfl, rfl, rfl, rfl⟩

theorem opened_tracks (h : Tracks key r s) (hf : f.kind = .opens) : Tracks key (r.1, f :: r.2) (s.opened f) := by
  have hcloses : closes (f :: r.2) = closes r.2 := if_neg fun hw : Works f r.2 => by
    rw [hw.1] at hf
    cases hf
  have hopens : opens (f :: r.2) = f :: opens r.2 := by
    simp [opens, hf]
  obtain ⟨hpnl, hfee, hfinancing, hepisodes, hp⟩ := start_same s f
  refine ⟨?_, ?_, ?_, ?_, ?_, fun g hg => ?_, hepisodes ▸ h.episodes⟩ <;> simp only [Tracked.opened, hcloses, hopens]
  · rw [h.remainingQty, openQty_cons, held, hf]
  · exact hpnl.trans h.cumPnl
  · exact hfee.trans h.closeFeeTotal
  · exact hfinancing.trans h.financingTotal
  · simpa using hp
  · obtain ⟨rfl, hnil⟩ := List.cons.inj (hopens ▸ hg)
    rw [Tracked.start, if_neg fun hp => h.positionOpened.mp hp hnil]

theorem reduced_tracks (h : Tracks key r s) (hw : Works f r.2) :
    Tracks key (r.1, f :: r.2) (s.reduced f (min f.qty s.remainingQty)) := by
  have hcloses : closes (f :: r.2) = f :: closes r.2 := if_pos hw
  have hopens : opens (f :: r.2) = opens r.2 := by
    simp [opens, hw.1]
  refine ⟨?_, ?_, ?_, ?_, ?_, ?_, h.episodes⟩ <;> simp only [Tracked.reduced, hcloses, hopens]
  · rw [h.remainingQty, openQty_cons, held, hw.1]
    exact (if_neg (not_le.mpr hw.2)).symm
  · exact (add_comm _ _).trans (congrArg _ h.cumPnl)
  · exact (add_comm _ _).trans (congrArg _ h.closeFeeTotal)
  · exact (add_comm _ _).trans (congrArg _ h.financingTotal)
  · exact h.positionOpened
  · exact h.openFeeTotal

theorem step_tracks (h : Tracks key r s) (f : FillRecord) : Tracks key (cut f r) (s.step key f) := by
  by_cases hw : Works f r.2
  · have hred := reduced_tracks h hw
    have hqty : min f.qty s.remainingQty = openQty r.2 - openQty (f :: r.2) := by
      rw [← hred.remainingQty, ← h.remainingQty]
      exact (sub_sub_cancel _ _).symm
    simp only [Tracked.step, hw.1]
    rw [if_neg (by rw [h.remainingQty]; exact not_le.mpr hw.2), Tracked.closed, hred.remainingQty, cut]
    by_cases hflat : openQty (f :: r.2) = 0
    · have hopened : (s.reduced f (min f.qty s.remainingQty)).positionOpened := h.positionOpened.mpr (opens_ne_nil hw.2)
      rw [if_pos ⟨hw, hflat⟩, if_pos ⟨hflat, hopened⟩]
      refine ⟨hred.remainingQty.trans hflat, rfl, rfl, rfl, ⟨nofun, fun h => absurd rfl h⟩, nofun, ?_⟩
      refine rel_append hred.episodes (.cons ⟨rfl, hred.closeFeeTotal, hred.financingTotal, hred.cumPnl,
        hred.openFeeTotal, hqty.trans ?_⟩ .nil)
      rw [hflat, sub_zero]
      rfl
    · rw [if_neg fun hc => hflat hc.2, if_neg fun hc => hflat hc.1]
      exact hred
  · rw [cut, if_neg fun hc => hw hc.1]
    cases hf : f.kind with
    | opens =>
      simp only [Tracked.step, hf]
      exact opened_tracks h hf
    | closes =>
      have hle : openQty r.2 ≤ 0 := not_lt.mp fun hlt => hw ⟨hf, hlt⟩
      have hcloses : closes (f :: r.2) = closes r.2 := if_neg hw
      have hopens : opens (f :: r.2) = opens r.2 := by
        simp [opens, hf]
      simp only [Tracked.step, hf]
      rw [if_pos (h.remainingQty ▸ hle)]
      refine ⟨h.remainingQty.trans ?_, ?_, ?_, ?_, ?_, ?_, h.episodes⟩ <;> simp only [hcloses, hopens]
      · rw [openQty_cons, held, hf]
        exact (if_pos hle).symm
      · exact h.cumPnl
      · exact h.closeFeeTotal
      · exact h.financingTotal
      · exact h.positionOpened
      · exact h.openFeeTotal

theorem foldr_tracks (key : String × ℤ) (past : History) : Tracks key (rounds past) (past.foldr (fun f s => s.step key f) {}) := by
  induction past with
  | nil => exact ⟨rfl, rfl, rfl, rfl, ⟨nofun, fun h => absurd rfl h⟩, nofun, .nil⟩
  | cons f past ih => exact step_tracks ih f

theorem episodesOf_tells (fills : List FillRecord) (key : String × ℤ) :
    List.Forall₂ (Tells key) (rounds (keyFills fills key).reverse).1 (episodesOf fills key) := by
  have h := (foldr_tracks key (keyFills fills key).reverse).episodes
  rwa [foldr_reverse] at h

/-! ## Drawdown -/

/-- Times and equities. -/
abbrev Series : Type := List (ℚ × ℚ)

structure Peak where
  peak : ℚ := 0
  peakTs : ℚ := 0
  maxDd : ℚ := 0
  maxDdPeakTs : ℚ := 0
  maxDdTroughTs : ℚ := 0

def Peak.step (s : Peak) (point : ℚ × ℚ) : Peak :=
  if s.peak < point.2 then { s with peak := point.2, peakTs := point.1 }
  else if 0 < s.peak ∧ s.maxDd < (s.peak - point.2) / s.peak then
    { s with maxDd := (s.peak - point.2) / s.peak, maxDdPeakTs := s.peakTs, maxDdTroughTs := point.1 }
  else s

def computeDrawdown (series : Series) : ℚ × ℚ × ℚ :=
  let s := series.foldl Peak.step {}
  (s.maxDd, s.maxDdPeakTs, s.maxDdTroughTs)

/-- A fall to `e` from a positive equity before it, which is the highest one when `e` is below zero. -/
def Fall (before : Series) (e d : ℚ) : Prop :=
  ∃ p ∈ before, 0 < p.2 ∧ (e < 0 → ∀ q ∈ before, q.2 ≤ p.2) ∧ d = (p.2 - e) / p.2

/-- No fall, and those of a series that is read backwards. -/
def falls (past : Series) : Set ℚ := {d | d = 0 ∨ ∃ e before, (e :: before) <:+ past ∧ Fall before e.2 d}

theorem mem_falls_cons {x : ℚ × ℚ} {past : Series} {d : ℚ} : d ∈ falls (x :: past) ↔ d ∈ falls past ∨ Fall past x.2 d := by
  simp only [falls, Set.mem_ofPred_eq, suffix_cons_iff]
  constructor
  · rintro (h | ⟨e, before, h | h, hfall⟩)
    · exact .inl (.inl h)
    · obtain ⟨rfl, rfl⟩ := List.cons.inj h
      exact .inr hfall
    · exact .inl (.inr ⟨e, before, h, hfall⟩)
  · rintro ((h | ⟨e, before, h, hfall⟩) | h)
    · exact .inl h
    · exact .inr ⟨e, before, .inr h, hfall⟩
    · exact .inr ⟨x, past, .inl rfl, h⟩

structure Peaked (past : Series) (s : Peak) : Prop where
  nonneg : 0 ≤ s.peak
  bound : ∀ x ∈ past, x.2 ≤ s.peak
  reached : 0 < s.peak → ∃ x ∈ past, x.2 = s.peak
  greatest : IsGreatest (falls past) s.maxDd

theorem step_peaked {past : Series} {s : Peak} (h : Peaked past s) (x : ℚ × ℚ) : Peaked (x :: past) (s.step x) := by
  have hkeep : s.maxDd ∈ falls (x :: past) := mem_falls_cons.mpr (.inl h.greatest.1)
  have hzero : 0 ≤ s.maxDd := h.greatest.2 (.inl rfl)
  unfold Peak.step
  split_ifs with hpeak hdd
  · refine ⟨h.nonneg.trans hpeak.le, ?_, fun _ => ⟨x, mem_cons_self, rfl⟩, hkeep, fun d hd => ?_⟩
    · exact forall_mem_cons.mpr ⟨le_rfl, fun y hy => (h.bound y hy).trans hpeak.le⟩
    · rcases mem_falls_cons.mp hd with hd | ⟨p, hp, hpos, -, rfl⟩
      · exact h.greatest.2 hd
      · refine (div_nonpos_of_nonpos_of_nonneg ?_ hpos.le).trans hzero
        linarith [h.bound p hp]
  all_goals
    have hbound : ∀ y ∈ x :: past, y.2 ≤ s.peak := forall_mem_cons.mpr ⟨not_lt.mp hpeak, h.bound⟩
    have hreached : 0 < s.peak → ∃ y ∈ x :: past, y.2 = s.peak := fun hpos =>
      (h.reached hpos).imp fun y hy => ⟨mem_cons_of_mem _ hy.1, hy.2⟩
    have hfall : ∀ {d}, Fall past x.2 d → 0 < s.peak ∧ d ≤ (s.peak - x.2) / s.peak := by
      rintro d ⟨p, hp, hpos, hlow, rfl⟩
      have hpp := hpos.trans_le (h.bound p hp)
      refine ⟨hpp, ?_⟩
      rw [div_le_div_iff₀ hpos hpp]
      by_cases hx : x.2 < 0
      · obtain ⟨y, hy, hys⟩ := h.reached hpp
        rw [le_antisymm (h.bound p hp) (hys ▸ hlow hx y hy)]
      · nlinarith [h.bound p hp, mul_le_mul_of_nonneg_left (h.bound p hp) (not_lt.mp hx)]
  · refine ⟨h.nonneg, hbound, hreached, ?_, fun d hd => ?_⟩
    · obtain ⟨p, hp, hps⟩ := h.reached hdd.1
      exact mem_falls_cons.mpr (.inr ⟨p, hp, hps ▸ hdd.1, fun _ q hq => hps ▸ h.bound q hq, by rw [hps]⟩)
    · rcases mem_falls_cons.mp hd with hd | hd
      · exact (h.greatest.2 hd).trans hdd.2.le
      · exact (hfall hd).2
  · refine ⟨h.nonneg, hbound, hreached, hkeep, fun d hd => ?_⟩
    rcases mem_falls_cons.mp hd with hd | hd
    · exact h.greatest.2 hd
    · exact (hfall hd).2.trans (not_lt.mp fun hlt => hdd ⟨(hfall hd).1, hlt⟩)

theorem drawdown_greatest (series : Series) : IsGreatest (falls series.reverse) (computeDrawdown series).1 := by
  have h : ∀ past : Series, Peaked past (past.foldr (fun x s => s.step x) {}) := by
    intro past
    induction past with
    | nil => exact ⟨le_rfl, nofun, fun h => absurd h (lt_irrefl _), .inl rfl, fun d hd => by simp_all [falls]⟩
    | cons x past ih => exact step_peaked ih x
  have := (h series.reverse).greatest
  rwa [foldr_reverse] at this

/-- Two opens and two closes make one episode. -/
def inParts : List FillRecord :=
  [⟨.opens, "A", 1, 1, 100, 1, 0, 0, 1⟩, ⟨.opens, "A", 1, 1, 100, 1, 0, 0, 2⟩, ⟨.closes, "A", 1, 1, 100, 1, 0, 0, 3⟩,
    ⟨.closes, "A", 1, 1, 100, 1, 0, 0, 4⟩]

end Docich.News.Episodes
