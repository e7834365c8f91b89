import Docich.News.Execution
import Docich.Ranked.Stable
import Docich.Window

/-!
# The observation queue

A queue of fixed capacity between the sources and the risk loop: `push` refuses an identity that it has seen lately and
whatever does not fit, `drain` empties the queue, drops what is late and hands over the rest by priority.

* A run is a list of calls on a new queue; `ran` keeps the queue before each call.
* `Accounts` is the accounting, which holds of every run. Within one priority a drain follows the deadlines, so it
  follows the pushes exactly when the deadlines do (`inPushOrder_iff`).
-/

namespace Docich.News

open List Ranked

/-! ## The queue -/

structure QueueConfig where
  maxSize : Nat
  dedupeLimit : Int
  maxSize_pos : 1 ≤ maxSize

structure QueueEntry where
  observation : MarketObservation
  priority : Int
  deadline : Instant

def QueueEntry.identity (e : QueueEntry) : QuoteIdentity := e.observation.identity

structure ObservationQueue where
  items : List QueueEntry
  seen : List QuoteIdentity
  droppedDuplicate : Nat
  droppedExpired : Nat
  droppedFull : Nat

def ObservationQueue.new : ObservationQueue := ⟨[], [], 0, 0, 0⟩

/-- Duplicates are refused before the capacity is looked at. -/
def ObservationQueue.push (cfg : QueueConfig) (q : ObservationQueue) (e : QueueEntry) : ObservationQueue × Bool :=
  if e.identity ∈ q.seen then ({ q with droppedDuplicate := q.droppedDuplicate + 1 }, false)
  else if cfg.maxSize ≤ q.items.length then ({ q with droppedFull := q.droppedFull + 1 }, false)
  else
    ({ q with items := q.items ++ [e], seen := Window.remember cfg.dedupeLimit q.seen e.identity }, true)

/-- The order of a drain. -/
def QueueEntry.rank (e : QueueEntry) : Int ×ₗ Instant := toLex (-e.priority, e.deadline)

/-- The deadline has not passed. -/
def QueueEntry.live (now : Instant) (e : QueueEntry) : Bool := now < e.deadline

/-- The entries that a drain hands over. -/
def ObservationQueue.drained (q : ObservationQueue) (now : Instant) : List QueueEntry :=
  (Ranked.sortBy QueueEntry.rank q.items).filter (QueueEntry.live now)

/-- The entries that a drain drops. -/
def ObservationQueue.late (q : ObservationQueue) (now : Instant) : List QueueEntry :=
  (Ranked.sortBy QueueEntry.rank q.items).filter fun e => !e.live now

def ObservationQueue.drain (q : ObservationQueue) (now : Instant) : ObservationQueue × List MarketObservation :=
  ({ q with items := [], droppedExpired := q.droppedExpired + (q.late now).length },
    (q.drained now).map QueueEntry.observation)

/-! ## Runs -/

inductive QueueCall
  | push (e : QueueEntry)
  | drain (now : Instant)

def QueueCall.next (cfg : QueueConfig) (call : QueueCall) (q : ObservationQueue) : ObservationQueue :=
  match call with
  | .push e => (q.push cfg e).1
  | .drain now => (q.drain now).1

/-- A call and the queue that it finds. -/
abbrev QueueStep := ObservationQueue × QueueCall

structure QueueRun where
  steps : List QueueStep
  queue : ObservationQueue

def QueueRun.next (cfg : QueueConfig) (r : QueueRun) (call : QueueCall) : QueueRun :=
  ⟨r.steps ++ [(r.queue, call)], call.next cfg r.queue⟩

def ran (cfg : QueueConfig) (calls : List QueueCall) : QueueRun := calls.foldl (QueueRun.next cfg) ⟨[], .new⟩

theorem ran_concat (cfg : QueueConfig) (calls : List QueueCall) (call : QueueCall) :
    ran cfg (calls ++ [call]) = (ran cfg calls).next cfg call := foldl_concat ..

section Log

variable (cfg : QueueConfig)

def QueueStep.accepted : QueueStep → List QueueEntry
  | (q, .push e) => if (q.push cfg e).2 then [e] else []
  | (_, .drain _) => []

def QueueStep.refused : QueueStep → List QueueEntry
  | (q, .push e) => if (q.push cfg e).2 then [] else [e]
  | (_, .drain _) => []

def QueueStep.delivered : QueueStep → List QueueEntry
  | (_, .push _) => []
  | (q, .drain now) => q.drained now

def QueueStep.expired : QueueStep → List QueueEntry
  | (_, .push _) => []
  | (q, .drain now) => q.late now

def QueueRun.accepted (r : QueueRun) : List QueueEntry := r.steps.flatMap (QueueStep.accepted cfg)

def QueueRun.refused (r : QueueRun) : List QueueEntry := r.steps.flatMap (QueueStep.refused cfg)

end Log

def QueueRun.delivered (r : QueueRun) : List QueueEntry := r.steps.flatMap QueueStep.delivered

def QueueRun.expired (r : QueueRun) : List QueueEntry := r.steps.flatMap QueueStep.expired

/-! ## One call -/

variable {cfg : QueueConfig} {q : ObservationQueue} {e : QueueEntry} {now : Instant}

/-- What a push does, in its three cases. -/
theorem push_cases (cfg : QueueConfig) (q : ObservationQueue) (e : QueueEntry) :
    (q.push cfg e = ({ q with droppedDuplicate := q.droppedDuplicate + 1 }, false) ∧ e.identity ∈ q.seen) ∨
    (q.push cfg e = ({ q with droppedFull := q.droppedFull + 1 }, false) ∧ e.identity ∉ q.seen ∧
      cfg.maxSize ≤ q.items.length) ∨
    (q.push cfg e =
      ({ q with items := q.items ++ [e], seen := Window.remember cfg.dedupeLimit q.seen e.identity }, true) ∧
      e.identity ∉ q.seen ∧ q.items.length < cfg.maxSize) := by
  unfold ObservationQueue.push
  by_cases hseen : e.identity ∈ q.seen
  · exact .inl ⟨by rw [if_pos hseen], hseen⟩
  · by_cases hfull : cfg.maxSize ≤ q.items.length
    · exact .inr (.inl ⟨by rw [if_neg hseen, if_pos hfull], hseen, hfull⟩)
    · exact .inr (.inr ⟨by rw [if_neg hseen, if_neg hfull], hseen, not_le.mp hfull⟩)

theorem drained_append_late (q : ObservationQueue) (now : Instant) : (q.drained now ++ q.late now).Perm q.items := by
  have hsplit : (q.drained now ++ q.late now).Perm (Ranked.sortBy QueueEntry.rank q.items) :=
    filter_append_perm _ _
  exact hsplit.trans (sortBy_perm _ _)

theorem live_of_mem_drained (h : e ∈ q.drained now) : now < e.deadline := by
  have hlive := (mem_filter.mp h).2
  simpa [QueueEntry.live] using hlive

theorem drained_rank (q : ObservationQueue) (now : Instant) :
    (q.drained now).Pairwise fun a b => a.rank ≤ b.rank := (sortBy_pairwise _ _).filter _

/-- Higher priorities come first. -/
theorem drained_priority (q : ObservationQueue) (now : Instant) :
    (q.drained now).Pairwise fun a b => b.priority ≤ a.priority := by
  apply (drained_rank q now).imp
  intro a b h
  rcases Prod.Lex.toLex_le_toLex.mp h with hlt | ⟨heq, -⟩
  · simp only at hlt
    omega
  · simp only at heq
    omega

/-! ## The order within one priority -/

/-- The live entries of a priority, in the order they were pushed. -/
def pushed (q : ObservationQueue) (now : Instant) (priority : Int) : List QueueEntry :=
  q.items.filter fun e => e.priority = priority && e.live now

/-- Within each priority the drain hands over in push order. -/
def InPushOrder (q : ObservationQueue) (now : Instant) : Prop :=
  ∀ priority, (q.drained now).filter (fun e => e.priority = priority) = pushed q now priority

/-- Of two live entries with one priority, the one pushed first has no later deadline. -/
def DeadlinesInOrder (q : ObservationQueue) (now : Instant) : Prop :=
  ∀ priority, (pushed q now priority).Pairwise fun a b => a.deadline ≤ b.deadline

theorem inPushOrder_iff (q : ObservationQueue) (now : Instant) : InPushOrder q now ↔ DeadlinesInOrder q now := by
  constructor
  · intro h priority
    rw [← h priority]
    have hrank := (drained_rank q now).filter fun e => e.priority = priority
    apply hrank.imp_of_mem
    intro a b ha hb hab
    have hpa : a.priority = priority := by simpa using (mem_filter.mp ha).2
    have hpb : b.priority = priority := by simpa using (mem_filter.mp hb).2
    rcases Prod.Lex.toLex_le_toLex.mp hab with hlt | ⟨-, hle⟩
    · simp only [hpa, hpb] at hlt
      omega
    · exact hle
  · intro h priority
    have hsorted : (pushed q now priority).Pairwise fun a b => a.rank ≤ b.rank := by
      apply (h priority).imp_of_mem
      intro a b ha hb hab
      have hpa := (mem_filter.mp ha).2
      have hpb := (mem_filter.mp hb).2
      simp only [Bool.and_eq_true, decide_eq_true_eq] at hpa hpb
      exact Prod.Lex.toLex_le_toLex.mpr (.inr ⟨by rw [hpa.1, hpb.1], hab⟩)
    -- stability: a sorted sublist of the items stays a sublist
    have hsub : (pushed q now priority).Sublist (Ranked.sortBy QueueEntry.rank q.items) :=
      sublist_sortBy hsorted filter_sublist
    have hfilter : pushed q now priority =
        (pushed q now priority).filter fun e => e.priority = priority && e.live now := by
      unfold pushed
      simp
    have hboth : (q.drained now).filter (fun e => e.priority = priority) =
        (Ranked.sortBy QueueEntry.rank q.items).filter fun e => e.priority = priority && e.live now := by
      unfold ObservationQueue.drained
      rw [filter_filter]
    have hperm : ((Ranked.sortBy QueueEntry.rank q.items).filter fun e => e.priority = priority && e.live now).Perm
        (pushed q now priority) := (sortBy_perm _ _).filter _
    rw [hboth]
    symm
    apply Sublist.eq_of_length ?_ hperm.length_eq.symm
    rw [hfilter]
    exact hsub.filter _

/-! ## The accounting of a run -/

/-- Nothing is lost or counted twice, and an identity that comes again came after a full window of others. -/
structure Accounts (cfg : QueueConfig) (r : QueueRun) : Prop where
  entries : (r.accepted cfg).Perm (r.delivered ++ r.expired ++ r.queue.items)
  expired : r.queue.droppedExpired = r.expired.length
  refused : (r.refused cfg).length = r.queue.droppedDuplicate + r.queue.droppedFull
  size : r.queue.items.length ≤ cfg.maxSize
  seen : r.queue.seen = Window.recent cfg.dedupeLimit ((r.accepted cfg).map QueueEntry.identity)
  fresh : Window.Fresh cfg.dedupeLimit ((r.accepted cfg).map QueueEntry.identity)

theorem accounts_new (cfg : QueueConfig) : Accounts cfg ⟨[], .new⟩ where
  entries := .refl _
  expired := rfl
  refused := rfl
  size := Nat.zero_le _
  seen := by simp [ObservationQueue.new, QueueRun.accepted, Window.recent]
  fresh := .nil

section Next

variable {r : QueueRun}

theorem accepted_next (r : QueueRun) (call : QueueCall) :
    (r.next cfg call).accepted cfg = r.accepted cfg ++ QueueStep.accepted cfg (r.queue, call) := by
  simp [QueueRun.accepted, QueueRun.next]

theorem refused_next (r : QueueRun) (call : QueueCall) :
    (r.next cfg call).refused cfg = r.refused cfg ++ QueueStep.refused cfg (r.queue, call) := by
  simp [QueueRun.refused, QueueRun.next]

theorem delivered_next (r : QueueRun) (call : QueueCall) :
    (r.next cfg call).delivered = r.delivered ++ QueueStep.delivered (r.queue, call) := by
  simp [QueueRun.delivered, QueueRun.next]

theorem expired_next (r : QueueRun) (call : QueueCall) :
    (r.next cfg call).expired = r.expired ++ QueueStep.expired (r.queue, call) := by
  simp [QueueRun.expired, QueueRun.next]

variable (h : Accounts cfg r)

include h

/-- A refused push changes one counter. -/
theorem accounts_refused {e : QueueEntry} {q : ObservationQueue}
    (hpush : r.queue.push cfg e = (q, false)) (hitems : q.items = r.queue.items) (hseen : q.seen = r.queue.seen)
    (hexpired : q.droppedExpired = r.queue.droppedExpired)
    (hcount : q.droppedDuplicate + q.droppedFull = r.queue.droppedDuplicate + r.queue.droppedFull + 1) :
    Accounts cfg (r.next cfg (.push e)) := by
  have hacc : (r.next cfg (.push e)).accepted cfg = r.accepted cfg := by
    rw [accepted_next]
    simp [QueueStep.accepted, hpush]
  have hdel : (r.next cfg (.push e)).delivered = r.delivered := by
    rw [delivered_next]
    simp [QueueStep.delivered]
  have hexp : (r.next cfg (.push e)).expired = r.expired := by
    rw [expired_next]
    simp [QueueStep.expired]
  have hqueue : (r.next cfg (.push e)).queue = q := by simp [QueueRun.next, QueueCall.next, hpush]
  constructor
  · rw [hacc, hdel, hexp, hqueue, hitems]
    exact h.entries
  · rw [hexp, hqueue, hexpired]
    exact h.expired
  · rw [refused_next, hqueue, length_append, h.refused, hcount]
    simp [QueueStep.refused, hpush]
  · rw [hqueue, hitems]
    exact h.size
  · rw [hacc, hqueue, hseen]
    exact h.seen
  · rw [hacc]
    exact h.fresh

theorem accounts_accepted {e : QueueEntry} (hnew : e.identity ∉ r.queue.seen)
    (hroom : r.queue.items.length < cfg.maxSize) (hpush : r.queue.push cfg e =
      ({ r.queue with items := r.queue.items ++ [e],
                      seen := Window.remember cfg.dedupeLimit r.queue.seen e.identity }, true)) :
    Accounts cfg (r.next cfg (.push e)) := by
  have hacc : (r.next cfg (.push e)).accepted cfg = r.accepted cfg ++ [e] := by
    rw [accepted_next]
    simp [QueueStep.accepted, hpush]
  have hdel : (r.next cfg (.push e)).delivered = r.delivered := by
    rw [delivered_next]
    simp [QueueStep.delivered]
  have hexp : (r.next cfg (.push e)).expired = r.expired := by
    rw [expired_next]
    simp [QueueStep.expired]
  have href : (r.next cfg (.push e)).refused cfg = r.refused cfg := by
    rw [refused_next]
    simp [QueueStep.refused, hpush]
  have hqueue : (r.next cfg (.push e)).queue =
      { r.queue with items := r.queue.items ++ [e],
                     seen := Window.remember cfg.dedupeLimit r.queue.seen e.identity } := by
    simp [QueueRun.next, QueueCall.next, hpush]
  constructor
  · rw [hacc, hdel, hexp, hqueue]
    simpa using h.entries.append_right [e]
  · rw [hexp, hqueue]
    exact h.expired
  · rw [href, hqueue]
    exact h.refused
  · rw [hqueue, length_append]
    exact hroom
  · rw [hacc, hqueue, map_append, map_singleton, ← Window.remember_recent, ← h.seen]
  · rw [hacc, map_append, map_singleton]
    apply Window.Fresh.snoc h.fresh
    rw [← h.seen]
    exact hnew

theorem accounts_drain (now : Instant) : Accounts cfg (r.next cfg (.drain now)) := by
  have hacc : (r.next cfg (.drain now)).accepted cfg = r.accepted cfg := by
    rw [accepted_next]
    simp [QueueStep.accepted]
  have hdel : (r.next cfg (.drain now)).delivered = r.delivered ++ r.queue.drained now := delivered_next r _
  have hexp : (r.next cfg (.drain now)).expired = r.expired ++ r.queue.late now := expired_next r _
  have href : (r.next cfg (.drain now)).refused cfg = r.refused cfg := by
    rw [refused_next]
    simp [QueueStep.refused]
  constructor
  · rw [hacc, hdel, hexp]
    have hitems : (r.queue.drained now ++ r.queue.late now).Perm r.queue.items := drained_append_late _ _
    have hswap : (r.delivered ++ r.expired ++ (r.queue.drained now ++ r.queue.late now)).Perm
        (r.delivered ++ r.queue.drained now ++ (r.expired ++ r.queue.late now) ++ []) := by
      rw [append_nil, append_assoc, append_assoc]
      apply Perm.append_left
      rw [← append_assoc, ← append_assoc]
      exact perm_append_comm.append_right _
    exact (h.entries.trans (hitems.symm.append_left _)).trans hswap
  · rw [hexp, length_append, ← h.expired]
    rfl
  · rw [href]
    exact h.refused
  · exact Nat.zero_le _
  · rw [hacc]
    exact h.seen
  · rw [hacc]
    exact h.fresh

theorem Accounts.next (call : QueueCall) : Accounts cfg (r.next cfg call) := by
  cases call with
  | push e =>
    rcases push_cases cfg r.queue e with ⟨hpush, -⟩ | ⟨hpush, -, -⟩ | ⟨hpush, hnew, hroom⟩
    · exact accounts_refused h hpush rfl rfl rfl (Nat.add_right_comm _ _ _)
    · exact accounts_refused h hpush rfl rfl rfl rfl
    · exact accounts_accepted h hnew hroom hpush
  | drain now => exact accounts_drain h now

end Next

theorem accounts_ran (cfg : QueueConfig) (calls : List QueueCall) : Accounts cfg (ran cfg calls) := by
  induction calls using List.reverseRecOn with
  | nil => exact accounts_new cfg
  | append_singleton calls call ih =>
    rw [ran_concat]
    exact ih.next call

/-! ## What the queue promises -/

/-- A refusal goes into one of the two counters. -/
def CountsOnce (q q' : ObservationQueue) : Prop :=
  q'.droppedDuplicate = q.droppedDuplicate + 1 ∧ q'.droppedFull = q.droppedFull ∨
    q'.droppedDuplicate = q.droppedDuplicate ∧ q'.droppedFull = q.droppedFull + 1

structure QueueAccounting (cfg : QueueConfig) (r : QueueRun) : Prop where
  accepted : (r.accepted cfg).length = r.delivered.length + r.queue.droppedExpired + r.queue.items.length
  size : r.queue.items.length ≤ cfg.maxSize
  refused : (r.refused cfg).length = r.queue.droppedDuplicate + r.queue.droppedFull
  refused_once : ∀ q e, (q, .push e) ∈ r.steps → (q.push cfg e).2 = false → CountsOnce q (q.push cfg e).1
  again : ∀ x, 2 ≤ (r.delivered.map QueueEntry.identity).count x →
    ∃ a b c, (r.accepted cfg).map QueueEntry.identity = a ++ x :: (b ++ x :: c)
  between : ∀ x a b c, (r.accepted cfg).map QueueEntry.identity = a ++ x :: (b ++ x :: c) →
    cfg.dedupeLimit ≤ (b.toFinset.erase x).card
  priority : ∀ q now, (q, .drain now) ∈ r.steps → (q.drained now).Pairwise fun a b => b.priority ≤ a.priority
  live : ∀ q now, (q, .drain now) ∈ r.steps → ∀ e ∈ q.drained now, now < e.deadline
  pushOrder : ∀ q now, (q, .drain now) ∈ r.steps → InPushOrder q now

theorem countsOnce_push (h : (q.push cfg e).2 = false) : CountsOnce q (q.push cfg e).1 := by
  rcases push_cases cfg q e with ⟨hpush, -⟩ | ⟨hpush, -, -⟩ | ⟨hpush, -, -⟩
  · rw [hpush]
    exact .inl ⟨rfl, rfl⟩
  · rw [hpush]
    exact .inr ⟨rfl, rfl⟩
  · rw [hpush] at h
    cases h

/-- What occurs twice stands in two places. -/
theorem split_of_count {κ : Type} [BEq κ] [LawfulBEq κ] {l : List κ} {x : κ} (h : 2 ≤ l.count x) :
    ∃ a b c, l = a ++ x :: (b ++ x :: c) := by
  have hmem : x ∈ l := count_pos_iff.mp (by omega)
  obtain ⟨a, t, rfl, ha⟩ := eq_append_cons_of_mem hmem
  have ht : x ∈ t := by
    rw [count_append, count_eq_zero_of_not_mem ha, count_cons_self] at h
    exact count_pos_iff.mp (by omega)
  obtain ⟨b, c, rfl⟩ := append_of_mem ht
  exact ⟨a, b, c, rfl⟩

/-- **The accounting of the queue.** Every run keeps it, the push order within a priority excepted: that order is kept
exactly when the queues that are drained have their deadlines in order. -/
theorem queue_accounting_iff (cfg : QueueConfig) (calls : List QueueCall) :
    QueueAccounting cfg (ran cfg calls) ↔
      ∀ q now, (q, .drain now) ∈ (ran cfg calls).steps → DeadlinesInOrder q now := by
  constructor
  · exact fun h q now hmem => (inPushOrder_iff q now).mp (h.pushOrder q now hmem)
  · intro hdeadlines
    have h := accounts_ran cfg calls
    constructor
    · have hlen := h.entries.length_eq
      rw [length_append, length_append, ← h.expired] at hlen
      exact hlen
    · exact h.size
    · exact h.refused
    · exact fun q e _ hrefused => countsOnce_push hrefused
    · intro x hx
      apply split_of_count
      have hperm := (h.entries.map QueueEntry.identity).count_eq x
      simp only [map_append, count_append] at hperm
      omega
    · exact fun x a b c hsplit => h.fresh.between hsplit
    · exact fun q now _ => drained_priority q now
    · exact fun q now _ e he => live_of_mem_drained he
    · exact fun q now hmem => (inPushOrder_iff q now).mpr (hdeadlines q now hmem)

/-! ## Two deadlines the other way round -/

/-- A quote of unit price with an identity of its own. -/
def unitQuote (observationId : String) : MarketObservation where
  observationId := observationId
  source := "source-1"
  asset := "asset-1"
  ingestSequence := 1
  marketEventAt := 0
  marketAvailableAt := 0
  availableAt := 0
  bid := 1
  ask := 1
  bidSize := 1
  askSize := 1
  sizeSemantics := .executable
  tradeable := true
  quoteDigest := observationId
  instrumentConstraintsVersion := "constraints-1"
  bids := none
  asks := none
  sessionOpen := none
  volatilityBps := none
  ingestSequence_pos := by norm_num
  event_le_market := le_rfl
  market_le_available := le_rfl
  bid_pos := pos_one
  bid_le_ask := le_rfl
  bidSize_nonneg := nonneg_one
  askSize_nonneg := nonneg_one

/-- The entry pushed second has the earlier deadline. -/
def crossed : List QueueCall :=
  [.push ⟨unitQuote "first", 0, 20⟩, .push ⟨unitQuote "second", 0, 10⟩, .drain 0]

theorem crossed_out_of_order : ¬ QueueAccounting ⟨2, 8, by norm_num⟩ (ran ⟨2, 8, by norm_num⟩ crossed) := by
  intro h
  let q : ObservationQueue := (ran ⟨2, 8, by norm_num⟩ (crossed.take 2)).queue
  have hmem : (q, QueueCall.drain 0) ∈ (ran ⟨2, 8, by norm_num⟩ crossed).steps := by
    simp [ran, crossed, QueueRun.next, q]
  have horder : DeadlinesInOrder q 0 := (inPushOrder_iff q 0).mp (h.pushOrder q 0 hmem)
  have hcrossed : ((pushed q 0 0).map QueueEntry.deadline).Pairwise (· ≤ ·) := pairwise_map.mpr (horder 0)
  revert hcrossed
  decide

end Docich.News
