import Docich.News.Moves
import Docich.News.Worker

/-!
# The ledgers of a worker

`Stored` are the ledgers that calls of the manager and cycles of the worker can leave behind, also where the process
dies on the way. Their books are kept, since every commit of a cycle keeps them (`booked_runOnce`).
-/

namespace Docich.News

open Durable

variable {sumText : List ℚ → ℚ} {l l' : Ledger} {o : PendingOrder} {cfg : WorkerConfig} {c : Cycle} {w : Worker}

/-- The ledgers that calls of the manager and cycles of the worker can leave behind. -/
inductive Stored (sumText : List ℚ → ℚ) : Ledger → Prop
  | empty : Stored sumText .empty
  | call {l l' : Ledger} (h : Stored sumText l) (a : Attempt) (hs : (a.job sumText).Leaves l l') : Stored sumText l'
  | cycle {l l' : Ledger} (h : Stored sumText l) (cfg : WorkerConfig) (c : Cycle) (w : Worker)
      (hs : (runOnce sumText cfg c w).Leaves l l') : Stored sumText l'

theorem Moves.booked {a : Attempt} (h : Moves sumText a l l') (hb : Booked l) : Booked l' := by
  induction h with
  | refl => exact hb
  | tail _ hmove ih => exact hmove.change.booked ih

theorem booked_cancelRow {k : Nat} {code : Option String} (hb : Booked l) :
    Job.Holds Booked l (cancelRow c k o code) fun _ t => Booked t := by
  unfold cancelRow
  split
  · exact Job.holds_pure hb
  · apply Job.holds_bind (Job.holds_attempt (Q := fun _ _ => True) (Job.holds_txn ?_) hb)
    · intro result t ht
      cases result with
      | ok r => exact Job.holds_pure ht
      | error e =>
        cases e with
        | ledger code => exact Job.holds_pure ht
        | execution code => exact Job.holds_throw
        | integrity => exact Job.holds_throw
    · intro t r ht
      rcases cancelInTxn_ok (cancelPendingOrder_ok ht) with ⟨rfl, -⟩ | ⟨order, -, hc⟩
      · exact ⟨hb, trivial⟩
      · exact ⟨hc.booked hb, trivial⟩

theorem booked_processRow {observed : List MarketObservation} {k : Nat} {tally : Tally} (hb : Booked l) :
    Job.Holds Booked l (processRow sumText cfg c observed k o tally) fun _ t => Booked t := by
  unfold processRow
  split
  · exact Job.holds_pure hb
  · cases hc : cfg.constraints o.asset with
    | none => exact Job.holds_pure hb
    | some constraints =>
      have hgoes := @goes_processObservations sumText
        ⟨cfg.manager, c.processClock k,
          .processObservations o.orderId (byAsset observed o.asset) constraints c.now true⟩ l _ _ _ _ _ rfl
      apply Job.holds_bind (Job.holds_attempt (hgoes.imp fun _ h => h.booked hb) hb)
      intro result t ht
      cases result with
      | ok outcome => exact Job.holds_pure ht
      | error e =>
        cases e with
        | ledger code => exact Job.holds_throw
        | execution code => exact Job.holds_pure ht
        | integrity => exact Job.holds_throw

theorem booked_eachRow {σ : Type} {f : Nat → PendingOrder → σ → LedgerJob σ}
    (hf : ∀ {l : Ledger} {o : PendingOrder} {k : Nat} {w : σ}, Booked l →
      Job.Holds Booked l (f k o w) fun _ t => Booked t)
    (hb : Booked l) (rows : List PendingOrder) (k : Nat) (w : σ) :
    Job.Holds Booked l (eachRow f k rows w) fun _ t => Booked t := by
  induction rows generalizing l k w with
  | nil => exact Job.holds_pure hb
  | cons o rows ih => exact Job.holds_bind (hf hb) fun w' m hm => ih hm (k + 1) w'

theorem booked_submitOne {k : Nat} {q : DecisionRequest} {tally : Tally} (hb : Booked l) :
    Job.Holds Booked l (submitOne cfg c k q tally) fun _ t => Booked t := by
  have hgoes := @goes_submitCandidate List.sum ⟨cfg.manager, c.submitClock k, .submitCandidate q .accept []⟩ l q rfl
    .accept []
  apply Job.holds_bind (Job.holds_attempt (hgoes.imp fun _ h => h.booked hb) hb)
  intro result t ht
  cases result with
  | ok view =>
    cases view with
    | some row => exact Job.holds_pure ht
    | none => exact Job.holds_throw
  | error e =>
    cases e with
    | ledger code =>
      dsimp only
      split
      · exact Job.holds_throw
      · exact Job.holds_pure ht
    | execution code => exact Job.holds_throw
    | integrity => exact Job.holds_throw

theorem booked_submitEach {requests : List DecisionRequest} (hb : Booked l) (k : Nat) (tally : Tally) :
    Job.Holds Booked l (submitEach cfg c k requests tally) fun _ t => Booked t := by
  induction requests generalizing l k tally with
  | nil => exact Job.holds_pure hb
  | cons q requests ih => exact Job.holds_bind (booked_submitOne hb) fun tally' m hm => ih hm (k + 1) tally'

/-- Every commit of a cycle keeps the books. -/
theorem booked_runOnce (hb : Booked l) : Job.Holds Booked l (runOnce sumText cfg c w) fun _ t => Booked t := by
  apply Job.holds_bind (Q := fun _ t => Booked t)
  · unfold cancelWhenDisabled
    split
    · apply Job.holds_read
      exact booked_eachRow booked_cancelRow hb _ 0 _
    · exact Job.holds_pure hb
  intro code l₁ h₁
  apply Job.holds_bind (Q := fun _ t => Booked t)
  · apply Job.holds_read
    exact booked_eachRow booked_processRow h₁ _ 0 _
  intro filled l₂ h₂
  apply Job.holds_bind (Q := fun _ t => Booked t)
  · unfold submitCandidates
    split
    · exact Job.holds_pure h₂
    · cases c.candidates with
      | error e => exact Job.holds_pure h₂
      | ok requests => exact booked_submitEach h₂ 0 _
  intro accepted l₃ h₃
  apply Job.holds_bind (Q := fun _ t => Booked t)
  · apply Job.holds_look
    intro account _
    apply Job.holds_txn
    intro t u ht
    obtain ⟨valuations, rfl⟩ := recordValuation_ok ht
    exact ⟨h₃.congr rfl rfl rfl rfl, h₃.congr rfl rfl rfl rfl⟩
  · exact fun _ t ht => Job.holds_pure ht

theorem Stored.booked (h : Stored sumText l) : Booked l := by
  induction h with
  | empty => exact booked_empty
  | call h a hs ih => exact (moves_of_leaves hs).booked ih
  | cycle h cfg c w hs ih => exact (booked_runOnce ih).leaves ih hs

theorem stored_ranAll (attempts : List Attempt) : Stored sumText (ranAll sumText attempts) := by
  induction attempts with
  | nil => exact .empty
  | cons a attempts ih => exact .call ih a (Job.leaves_last _ _)

end Docich.News
