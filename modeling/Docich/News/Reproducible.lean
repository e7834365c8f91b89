import Docich.Durable.Table
import Docich.Ranked.Stable
import Mathlib.Algebra.Order.Ring.Rat
import Mathlib.Data.Prod.Lex
import Mathlib.Data.String.Basic

/-!
# Digests of an evaluation

`_compute_digests` sorts fills, equity points, positions and news events before it hashes them. The sort is stable and its
keys leave ties, so a digest depends on the order of what ties: `reproducible_iff`. Decimals and floats are their texts, and
`value` is the number of a text; the digest of what `json.dumps` is given is a parameter.
-/

namespace Docich.News.Reproducible

open Durable List Ranked

structure FillRecord where
  kind : String
  symbol : String
  side : ℤ
  qty : String
  price : String
  fee : String
  financing : String
  netPnlJpy : String
  ts : String
  reason : String
  policyVersion : String
  orderRef : String
  partialFill : Bool
  originalQty : Option String
  deriving DecidableEq

/-- The texts of the values of a dict by its keys, which `json.dumps` sorts. -/
abbrev Texts : Type := List (String × String)

structure NewsEvent where
  eventId : String
  observedAt : String
  others : Texts
  deriving DecidableEq

/-- What is digested: the metrics of the arm are digested as they are. -/
inductive Data (Arm : Type)
  | fills (data : List FillRecord)
  | equity (data : List (String × String))
  | positions (data : List (String × Texts))
  | news (data : List NewsEvent)
  | evaluation (arm : Arm)
  deriving DecidableEq

structure Evaluation (Arm : Type) where
  fills : List FillRecord
  equity : List (String × String)
  positions : Table (Prod.fst : String × Texts → String)
  news : List NewsEvent
  arm : Arm

structure Digests where
  fill : String
  equity : String
  position : String
  news : String
  evaluation : String
  deriving DecidableEq

variable {Arm : Type} (value : String → ℚ)

def fillKey (f : FillRecord) : ℚ ×ₗ String ×ₗ String := toLex (value f.ts, toLex (f.symbol, f.kind))

def pointKey (p : String × String) : ℚ ×ₗ ℚ := toLex (value p.1, value p.2)

def newsKey (e : NewsEvent) : String ×ₗ ℚ := toLex (e.eventId, value e.observedAt)

def computeDigests (digest : Data Arm → String) (e : Evaluation Arm) : Digests where
  fill := digest (.fills (order (fillKey value) e.fills))
  equity := digest (.equity (order (pointKey value) e.equity))
  position := digest (.positions (order Prod.fst e.positions.rows))
  news := digest (.news (order (newsKey value) e.news))
  evaluation := digest (.evaluation e.arm)

def verifyReproducibility (digest : Data Arm → String) (prevA currA prevB currB : Evaluation Arm) : Bool :=
  computeDigests value digest prevA = computeDigests value digest currA ∧
    computeDigests value digest prevB = computeDigests value digest currB

/-- The same evaluation in another order. -/
structure Permuted (e e' : Evaluation Arm) : Prop where
  fills : e.fills.Perm e'.fills
  equity : e.equity.Perm e'.equity
  positions : e.positions.rows.Perm e'.positions.rows
  news : e.news.Perm e'.news
  arm : e.arm = e'.arm

/-- Fills of one time, symbol and kind come in the same order in both, and so do points of equal time and equity, and news of
one event and time. -/
structure TiesAlike (e e' : Evaluation Arm) : Prop where
  fills : ∀ k, e.fills.filter (fillKey value · = k) = e'.fills.filter (fillKey value · = k)
  equity : ∀ k, e.equity.filter (pointKey value · = k) = e'.equity.filter (pointKey value · = k)
  news : ∀ k, e.news.filter (newsKey value · = k) = e'.news.filter (newsKey value · = k)

variable {value} {e e' prevA currA prevB currB : Evaluation Arm}

theorem positions_eq (h : Permuted e e') : order Prod.fst e.positions.rows = order Prod.fst e'.positions.rows := by
  have hperm := (perm_insertionSort (fun a b : String × Texts => a.1 ≤ b.1) e.positions.rows).trans
    (h.positions.trans (perm_insertionSort (fun a b : String × Texts => a.1 ≤ b.1) _).symm)
  refine hperm.eq_of_pairwise (fun a b ha hb hab hba => ?_) (order_pairwise _ _) (order_pairwise _ _)
  exact Table.eq_of_key_eq ((perm_insertionSort _ _).mem_iff.mp ha)
    (h.positions.mem_iff.mpr ((perm_insertionSort _ _).mem_iff.mp hb)) (le_antisymm hab hba)

theorem digests_iff (h : Permuted e e') :
    (∀ digest, computeDigests value digest e = computeDigests value digest e') ↔ TiesAlike value e e' := by
  classical
  constructor
  · intro hsame
    have hdata (data data' : Data Arm)
        (hd : ∀ digest : Data Arm → String, digest data = digest data') : data = data' := by
      have := hd fun x => if x = data then "same" else "other"
      by_contra hne
      simp [Ne.symm hne] at this
    refine ⟨order_eq_iff.mp ?_, order_eq_iff.mp ?_, order_eq_iff.mp ?_⟩
    · exact Data.fills.inj (hdata _ _ fun digest => congrArg Digests.fill (hsame digest))
    · exact Data.equity.inj (hdata _ _ fun digest => congrArg Digests.equity (hsame digest))
    · exact Data.news.inj (hdata _ _ fun digest => congrArg Digests.news (hsame digest))
  · intro ht digest
    rw [computeDigests, computeDigests, order_eq_iff.mpr ht.fills, order_eq_iff.mpr ht.equity, positions_eq h,
      order_eq_iff.mpr ht.news, h.arm]

/-- **Digests of reordered evaluations** agree, whatever the digest is, exactly when what ties comes in the same order. -/
theorem reproducible_iff (ha : Permuted prevA currA) (hb : Permuted prevB currB) :
    ((∀ digest, computeDigests value digest prevA = computeDigests value digest currA) ↔ TiesAlike value prevA currA) ∧
      ((∀ digest, verifyReproducibility value digest prevA currA prevB currB = true) ↔
        TiesAlike value prevA currA ∧ TiesAlike value prevB currB) := by
  refine ⟨digests_iff ha, ?_⟩
  rw [← digests_iff ha, ← digests_iff hb, ← forall_and]
  exact forall_congr' fun digest => decide_eq_true_iff

def fillOf (qty : String) : FillRecord :=
  ⟨"open", "BTC", 1, qty, "100", "0", "0", "0", "1.0", "", "", "", false, none⟩

def evaluationOf (fills : List FillRecord) : Evaluation Unit := ⟨fills, [], .empty, [], ()⟩

theorem reproducible_iff_swapped :
    let value : String → ℚ := fun _ => 1
    let e := evaluationOf [fillOf "1", fillOf "2"]
    let e' := evaluationOf [fillOf "2", fillOf "1"]
    ((∀ digest, computeDigests value digest e = computeDigests value digest e') ↔ TiesAlike value e e') ∧
      ((∀ digest, verifyReproducibility value digest e e' e e = true) ↔ TiesAlike value e e' ∧ TiesAlike value e e) :=
  reproducible_iff ⟨.swap .., .rfl, .rfl, .rfl, rfl⟩ ⟨.rfl, .rfl, .rfl, .rfl, rfl⟩

/-- Two fills of one time, symbol and kind, one after the other. -/
theorem digests_swapped :
    let e := evaluationOf [fillOf "1", fillOf "2"]
    let e' := evaluationOf [fillOf "2", fillOf "1"]
    let digest : Data Unit → String := fun data =>
      if data = .fills e.fills then "9735b66b08b80e4c" else if data = .fills e'.fills then "c4172ee38f5a731a"
      else "4f53cda18c2baa0c"
    Permuted e e' ∧ verifyReproducibility (fun _ => 1) digest e e' e e' = false :=
  ⟨⟨.swap .., .rfl, .rfl, .rfl, rfl⟩, by decide⟩

end Docich.News.Reproducible
