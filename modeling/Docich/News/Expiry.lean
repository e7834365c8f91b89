import Docich.News.Stored
import Docich.News.Submission
import Docich.News.Turn

/-!
# Expired orders in a cycle of the worker

Expiry is decided where an order is executed, so a cycle ends an expired order only if it cancels it, or gets as far
as executing it (`Reached`). Every other order stays as it is.

`Settles` is what a loop over rows does to its orders; `Ran` puts the parts of a cycle together.
-/

namespace Docich.News

open Durable List Table

/-! ## What a cycle should do -/

/-- Every order of the account that has expired is final, and its reservation is released. -/
def Resolved (accountId : String) (now : Instant) (l : Ledger) : Prop :=
  ∀ o ∈ l.orders, o.accountId = accountId → o.expiresAt ≤ now →
    o.status.terminal = true ∧ ∀ r ∈ l.reservations, r.orderId = o.orderId → r.releasedAt ≠ none

/-- The cycle gets to every live order of the account that has expired. -/
def Reached (cfg : WorkerConfig) (c : Cycle) (w : Worker) (l : Ledger) : Prop :=
  ∀ o ∈ l.orders, o.accountId = cfg.accountId → o.expiresAt ≤ c.now → o.status.terminal = false →
    (cfg.entriesDisabled = true ∧ Cancelable o) ∨ Observed cfg c.now (observations cfg c w) l o

variable {sumText : List ℚ → ℚ} {l l' m t : Ledger} {o : PendingOrder} {now : Instant} {mgr : Manager}

/-! ## A loop over rows -/

/-- The treatment of the orders `rows`, each hit or missed as it stood before the loop. -/
structure Settles (hit : Ledger → PendingOrder → Prop) (now : Instant) (rows : List PendingOrder) (l l' : Ledger) :
    Prop where
  booked : Booked l'
  others : ∀ x : PendingOrder, (∀ o ∈ rows, x.orderId ≠ o.orderId) → (x ∈ l'.orders ↔ x ∈ l.orders)
  same : ∀ o ∈ rows, ∀ x ∈ l'.orders, x.orderId = o.orderId → x.expiresAt = o.expiresAt ∧ x.accountId = o.accountId
  done : ∀ o ∈ rows, o.expiresAt ≤ now → hit l o → ∀ x ∈ l'.orders, x.orderId = o.orderId → x.status.terminal = true
  missed : ∀ o ∈ rows, o.expiresAt ≤ now → ¬ hit l o → o ∈ l'.orders

/-- Whether an order is hit does not depend on what is done to other orders. -/
def Separate (hit : Ledger → PendingOrder → Prop) (now : Instant) : Prop :=
  ∀ {l l' : Ledger} {o x : PendingOrder}, o ∈ l.orders → x ∈ l.orders → x.orderId ≠ o.orderId → Booked l →
    Turn (hit l o) now o l l' → (hit l' x ↔ hit l x)

variable {σ : Type} {f : Nat → PendingOrder → σ → LedgerJob σ} {hit : Ledger → PendingOrder → Prop}
    {rows : List PendingOrder} {cfg : WorkerConfig} {observed : List MarketObservation} {c : Cycle}
    {code : Option String}

theorem ends_eachRow (hf : ∀ {l : Ledger} {o : PendingOrder} {k : Nat} {w : σ}, Booked l → o ∈ l.orders → o.status.terminal = false →
      Job.Ends l (f k o w) (fun _ t => Turn (hit l o) now o l t) fun _ _ => True)
    (hsep : Separate hit now) (hn : (rows.map PendingOrder.orderId).Nodup)
    (hb : Booked l) (hrows : ∀ o ∈ rows, o ∈ l.orders ∧ o.status.terminal = false) (k : Nat) (w : σ) :
    Job.Ends l (eachRow f k rows w) (fun _ t => Settles hit now rows l t) fun _ _ => True := by
  induction rows generalizing l k w with
  | nil =>
    exact Job.ends_pure ⟨hb, fun _ _ => Iff.rfl, by simp, by simp, by simp⟩
  | cons o rows ih =>
    rw [map_cons, nodup_cons] at hn
    obtain ⟨hnot, hn⟩ := hn
    obtain ⟨⟨ho, hlive⟩, hrest⟩ := forall_mem_cons.mp hrows
    apply Job.ends_bind (hf hb ho hlive)
    intro w' m hturn
    have hne : ∀ x ∈ rows, x.orderId ≠ o.orderId := by
      intro x hx hid
      exact hnot (hid ▸ mem_map_of_mem hx)
    have hrest' : ∀ x ∈ rows, x ∈ m.orders ∧ x.status.terminal = false := by
      intro x hx
      exact ⟨(hturn.others x (hne x hx)).mpr (hrest x hx).1, (hrest x hx).2⟩
    have hsame : ∀ x ∈ rows, (hit m x ↔ hit l x) := fun x hx => hsep ho (hrest x hx).1 (hne x hx) hb hturn
    -- An order with the id of the first row is no other row's.
    have hfirst : ∀ {x : PendingOrder}, x.orderId = o.orderId → ∀ y ∈ rows, x.orderId ≠ y.orderId :=
      fun hid y hy he => hne y hy (he.symm.trans hid)
    refine (ih hn hturn.booked hrest' (k + 1) w').mono (fun _ t hset => ?_) fun _ _ _ => trivial
    constructor
    · exact hset.booked
    · intro x hx
      obtain ⟨hxo, hx⟩ := forall_mem_cons.mp hx
      rw [hset.others x hx, hturn.others x hxo]
    · refine forall_mem_cons.mpr ⟨fun x hx hid => ?_, hset.same⟩
      exact hturn.same x ((hset.others x (hfirst hid)).mp hx) hid
    · refine forall_mem_cons.mpr ⟨fun he hhit x hx hid => ?_, fun y hy he hhit => ?_⟩
      · exact hturn.done he hhit x ((hset.others x (hfirst hid)).mp hx) hid
      · exact hset.done y hy he ((hsame y hy).mpr hhit)
    · refine forall_mem_cons.mpr ⟨fun he hmiss => ?_, fun y hy he hmiss => ?_⟩
      · exact (hset.others o (hfirst rfl)).mpr (hturn.missed he hmiss)
      · exact hset.missed y hy he fun hhit => hmiss ((hsame y hy).mp hhit)

/-! ## What a row reads -/

theorem offeredFence_congr {receiptId : String} (hm : l'.markers = l.markers)
    (hf : ∀ mk ∈ l.markers, mk.receiptId = receiptId →
      (l'.fences.rows.find? fun f => f.markerId = mk.markerId) =
        l.fences.rows.find? fun f => f.markerId = mk.markerId) :
    offeredFence mgr now l' receiptId = offeredFence mgr now l receiptId := by
  unfold offeredFence
  rw [hm]
  cases hmk : l.markers.rows.find? fun mk => mk.receiptId = receiptId with
  | none => rfl
  | some mk =>
    obtain ⟨hmem, hid⟩ := find_rows_some hmk
    rw [Option.map_some, Option.map_some, hf mk hmem (by simpa using hid)]

theorem readable_congr (hr : l'.receipts = l.receipts)
    (hf : offeredFence mgr now l' o.receiptId = offeredFence mgr now l o.receiptId) :
    Readable mgr now l' o ↔ Readable mgr now l o := by
  constructor
  · rintro ⟨h1, h2, h3⟩
    exact ⟨h1, hr ▸ h2, hf ▸ h3⟩
  · rintro ⟨h1, h2, h3⟩
    exact ⟨h1, hr.symm ▸ h2, hf.symm ▸ h3⟩

theorem observed_congr (h : Readable cfg.manager now l' o ↔ Readable cfg.manager now l o) :
    Observed cfg now observed l' o ↔ Observed cfg now observed l o :=
  ⟨fun ⟨h1, h2, h3⟩ => ⟨h1, h2, h.mp h3⟩, fun ⟨h1, h2, h3⟩ => ⟨h1, h2, h.mpr h3⟩⟩

theorem separate_observed :
    Separate (Observed cfg now observed) now := by
  intro l l' o x ho hx hne hb hturn
  apply observed_congr
  apply readable_congr hturn.receipts
  apply offeredFence_congr hturn.markers
  intro mk hmk hr
  apply hturn.fences
  intro mk' hmk' hr' hid
  -- Markers of two receipts are two markers.
  obtain rfl : mk' = mk := eq_of_key_eq hmk' hmk hid
  have hxo : x = o := hb.receipt_once x hx o ho (hr.symm.trans hr')
  exact hne (congrArg PendingOrder.orderId hxo)

theorem separate_cancelable : Separate (fun _ o => Cancelable o) now := fun _ _ _ _ _ => Iff.rfl

/-! ## The two loops -/

theorem mem_pendingOrderRows {accountId : String} : o ∈ pendingOrderRows accountId l ↔
    o ∈ l.orders ∧ o.accountId = accountId ∧ o.status.terminal = false := by
  simp [pendingOrderRows, mem_rows]

theorem nodup_pendingOrderRows (accountId : String) :
    ((pendingOrderRows accountId l).map PendingOrder.orderId).Nodup :=
  (Sublist.map _ filter_sublist).nodup l.orders.nodup

theorem ends_processPendingOrders (hb : Booked l) :
    Job.Ends l (processPendingOrders sumText cfg c observed code)
      (fun _ t => Settles (Observed cfg c.now observed) c.now (pendingOrderRows cfg.accountId l) l t)
      fun _ _ => True := by
  apply Job.ends_bind (Q := fun rows t => l = t ∧ rows = pendingOrderRows cfg.accountId l) (Job.ends_read ⟨rfl, rfl⟩)
  rintro _ _ ⟨rfl, rfl⟩
  exact ends_eachRow ends_processRow separate_observed (nodup_pendingOrderRows _) hb
    (fun o ho => ⟨(mem_pendingOrderRows.mp ho).1, (mem_pendingOrderRows.mp ho).2.2⟩) 0 _

/-- A property that every row keeps is kept by the loop. -/
theorem ends_eachRow_keeps {P : Ledger → Prop}
    (hf : ∀ {l : Ledger} {o : PendingOrder} {k : Nat} {w : σ}, P l →
      Job.Ends l (f k o w) (fun _ t => P t) fun _ _ => True)
    (hl : P l) (rows : List PendingOrder) (k : Nat) (w : σ) :
    Job.Ends l (eachRow f k rows w) (fun _ t => P t) fun _ _ => True := by
  induction rows generalizing l k w with
  | nil => exact Job.ends_pure hl
  | cons o rows ih => exact Job.ends_bind (hf hl) fun w' m hm => ih hm (k + 1) w'

/-- What a row reads beside its order is as it was. -/
def SameRecords (l l' : Ledger) : Prop :=
  l'.receipts = l.receipts ∧ l'.markers = l.markers ∧ l'.fences = l.fences

theorem ends_cancelRow_records {k : Nat} (h : SameRecords m l) :
    Job.Ends l (cancelRow c k o code) (fun _ t => SameRecords m t) fun _ _ => True := by
  unfold cancelRow
  split
  · exact Job.ends_pure h
  · apply Job.ends_bind
    · apply Job.ends_attempt (Q := fun _ t => SameRecords m t) (F := fun _ t => SameRecords m t)
      apply Job.ends_txn
      · intro t r ht
        rcases cancelInTxn_ok (cancelPendingOrder_ok ht) with ⟨rfl, -⟩ | ⟨order, -, hc⟩
        · exact h
        · rw [hc.frame]
          exact h
      · exact fun _ _ => h
    rintro result t ⟨hok, herr⟩
    cases result with
    | ok r => exact Job.ends_pure (hok r rfl)
    | error e =>
      cases e with
      | ledger code => exact Job.ends_pure (herr _ rfl)
      | execution code => exact Job.ends_throw trivial
      | integrity => exact Job.ends_throw trivial

theorem ends_cancelRiskIncreasingPending (hb : Booked l) :
    Job.Ends l (cancelRiskIncreasingPending cfg c code)
      (fun _ t => Settles (fun _ o => Cancelable o) c.now (pendingOrderRows cfg.accountId l) l t ∧ SameRecords l t)
      fun _ _ => True := by
  apply Job.ends_bind (Q := fun rows t => l = t ∧ rows = pendingOrderRows cfg.accountId l) (Job.ends_read ⟨rfl, rfl⟩)
  rintro _ _ ⟨rfl, rfl⟩
  refine ((ends_eachRow ends_cancelRow separate_cancelable (nodup_pendingOrderRows _) hb
    (fun o ho => ⟨(mem_pendingOrderRows.mp ho).1, (mem_pendingOrderRows.mp ho).2.2⟩) 0 _).and
      (ends_eachRow_keeps ends_cancelRow_records ⟨rfl, rfl, rfl⟩ _ 0 _)).mono (fun _ _ h => h) fun _ _ _ => trivial
/-! ## A cycle -/

variable {cfg : WorkerConfig} {c : Cycle} {w : Worker}

/-- The cancellation of pending buys is on, and takes the order. -/
def CanceledBy (cfg : WorkerConfig) (_ : Ledger) (o : PendingOrder) : Prop :=
  cfg.entriesDisabled = true ∧ Cancelable o

/-- The ledgers between the parts of a cycle, up to the valuation. -/
structure Ran (cfg : WorkerConfig) (c : Cycle) (w : Worker) (l l₁ l₂ l₃ l' : Ledger) : Prop where
  canceled : Settles (CanceledBy cfg) c.now (pendingOrderRows cfg.accountId l) l l₁
  records : SameRecords l l₁
  processed : Settles (Observed cfg c.now (observations cfg c w)) c.now (pendingOrderRows cfg.accountId l₁) l₁ l₂
  opened : OpensAny (submitted cfg c) l₂ l₃
  valued : l'.orders = l₃.orders
  booked : Booked l'

/-- Without the cancellation no order is hit. -/
theorem settles_idle (hb : Booked l) (hh : ∀ o, ¬ hit l o)
    (hrows : ∀ o ∈ rows, o ∈ l.orders) : Settles hit now rows l l where
  booked := hb
  others := fun _ _ => Iff.rfl
  same := by
    intro o ho x hx hid
    rw [eq_of_key_eq hx (hrows o ho) hid]
    exact ⟨rfl, rfl⟩
  done := fun o _ _ hhit => absurd hhit (hh o)
  missed := fun o ho _ _ => hrows o ho

theorem ends_cancelWhenDisabled (hb : Booked l) :
    Job.Ends l (cancelWhenDisabled cfg c code)
      (fun _ t => Settles (CanceledBy cfg) c.now (pendingOrderRows cfg.accountId l) l t ∧ SameRecords l t)
      fun _ _ => True := by
  unfold cancelWhenDisabled
  split
  next hdisabled =>
    refine (ends_cancelRiskIncreasingPending hb).mono (fun _ t h => ⟨?_, h.2⟩) fun _ _ h => h
    exact ⟨h.1.booked, h.1.others, h.1.same, fun o ho he hhit => h.1.done o ho he hhit.2,
      fun o ho he hmiss => h.1.missed o ho he fun hc => hmiss ⟨hdisabled, hc⟩⟩
  next henabled =>
    exact Job.ends_pure ⟨settles_idle hb (fun o hhit => henabled hhit.1)
      fun o ho => (mem_pendingOrderRows.mp ho).1, rfl, rfl, rfl⟩

theorem ends_runOnce (hb : Booked l) :
    Job.Ends l (runOnce sumText cfg c w) (fun _ t => ∃ l₁ l₂ l₃, Ran cfg c w l l₁ l₂ l₃ t) fun _ _ => True := by
  apply Job.ends_bind (ends_cancelWhenDisabled hb)
  rintro code l₁ ⟨hcancel, hrecords⟩
  apply Job.ends_bind (ends_processPendingOrders hcancel.booked)
  intro filled l₂ hprocess
  apply Job.ends_bind (ends_submitCandidates hprocess.booked)
  intro accepted l₃ hopens
  apply Job.ends_bind (ends_valuate hopens.booked)
  rintro _ t ⟨hbooked, hvalued⟩
  exact Job.ends_pure ⟨l₁, l₂, l₃, hcancel, hrecords, hprocess, hopens, hvalued, hbooked⟩

section Ran

variable {l₁ l₂ l₃ : Ledger} (h : Ran cfg c w l l₁ l₂ l₃ l')
include h

theorem Ran.observed_iff (o : PendingOrder) :
    Observed cfg c.now (observations cfg c w) l₁ o ↔ Observed cfg c.now (observations cfg c w) l o := by
  obtain ⟨hreceipts, hmarkers, hfences⟩ := h.records
  apply observed_congr
  apply readable_congr hreceipts
  exact offeredFence_congr hmarkers fun _ _ _ => by rw [hfences]

/-- An expired order that the cycle does not get to stays as it is. -/
theorem Ran.lingers (ho : o ∈ l.orders) (hacc : o.accountId = cfg.accountId) (he : o.expiresAt ≤ c.now)
    (hlive : o.status.terminal = false) (hcancel : ¬ CanceledBy cfg l o)
    (hobserved : ¬ Observed cfg c.now (observations cfg c w) l o) : o ∈ l'.orders := by
  have h₁ : o ∈ l₁.orders := h.canceled.missed o (mem_pendingOrderRows.mpr ⟨ho, hacc, hlive⟩) he hcancel
  have h₂ : o ∈ l₂.orders := h.processed.missed o (mem_pendingOrderRows.mpr ⟨h₁, hacc, hlive⟩) he
    fun hhit => hobserved ((h.observed_iff o).mp hhit)
  rw [h.valued]
  exact h.opened.keeps o h₂

/-- An expired order that is still live after the cancellations was there before them, and they missed it. -/
theorem Ran.uncanceled (hreached : Reached cfg c w l) (ho : o ∈ l₁.orders) (hacc : o.accountId = cfg.accountId)
    (he : o.expiresAt ≤ c.now) (hlive : o.status.terminal = false) :
    Observed cfg c.now (observations cfg c w) l o := by
  by_cases hrow : ∃ p ∈ pendingOrderRows cfg.accountId l, o.orderId = p.orderId
  · obtain ⟨p, hp, hid⟩ := hrow
    obtain ⟨hp₀, hpacc, hplive⟩ := mem_pendingOrderRows.mp hp
    have hpe : p.expiresAt ≤ c.now := (h.canceled.same p hp o ho hid).1 ▸ he
    by_cases hcancel : CanceledBy cfg l p
    · rw [h.canceled.done p hp hpe hcancel o ho hid] at hlive
      cases hlive
    · obtain rfl : o = p := eq_of_key_eq ho (h.canceled.missed p hp hpe hcancel) hid
      exact (hreached o hp₀ hacc he hlive).resolve_left hcancel
  · have hrow : ∀ p ∈ pendingOrderRows cfg.accountId l, o.orderId ≠ p.orderId := fun p hp hid => hrow ⟨p, hp, hid⟩
    have ho₀ : o ∈ l.orders := (h.canceled.others o hrow).mp ho
    exact absurd rfl (hrow o (mem_pendingOrderRows.mpr ⟨ho₀, hacc, hlive⟩))

/-- An expired order is final at the end of a cycle that gets to every one and is given no expired candidate. -/
theorem Ran.final (hreached : Reached cfg c w l) (hnew : ∀ q ∈ submitted cfg c, c.now < q.expiresAt)
    (ho : o ∈ l'.orders) (hacc : o.accountId = cfg.accountId) (he : o.expiresAt ≤ c.now) :
    o.status.terminal = true := by
  rw [h.valued] at ho
  rcases h.opened.opened o ho with h₂ | ⟨q, hq, hexp⟩
  · by_cases hrow : ∃ p ∈ pendingOrderRows cfg.accountId l₁, o.orderId = p.orderId
    · obtain ⟨p, hp, hid⟩ := hrow
      obtain ⟨hp₁, hpacc, hplive⟩ := mem_pendingOrderRows.mp hp
      have hpe : p.expiresAt ≤ c.now := (h.processed.same p hp o h₂ hid).1 ▸ he
      have hobserved := h.uncanceled hreached hp₁ hpacc hpe hplive
      exact h.processed.done p hp hpe ((h.observed_iff p).mpr hobserved) o h₂ hid
    · have hrow : ∀ p ∈ pendingOrderRows cfg.accountId l₁, o.orderId ≠ p.orderId := fun p hp hid => hrow ⟨p, hp, hid⟩
      have h₁ : o ∈ l₁.orders := (h.processed.others o hrow).mp h₂
      by_contra hlive
      exact hrow o (mem_pendingOrderRows.mpr ⟨h₁, hacc, by simpa using hlive⟩) rfl
  · exact absurd (hexp ▸ he) (not_le.mpr (hnew q hq))

end Ran

/-- The reservation of a final order is released. -/
theorem Booked.released (hb : Booked l) (ho : o ∈ l.orders) (hfinal : o.status.terminal = true) :
    ∀ r ∈ l.reservations, r.orderId = o.orderId → r.releasedAt ≠ none := by
  intro r hr hid hnone
  obtain ⟨r', hr', -, hid', -, hheld⟩ := hb.reserved o ho
  obtain rfl : r = r' := hb.reservation_once r hr r' hr' (hid.trans hid'.symm)
  rw [hheld.mp hnone] at hfinal
  cases hfinal
/-! ## Expired orders after a cycle -/

/-- A buy of `asset-1` that expires at `1000`. -/
def expiringOrder : List Attempt :=
  [plainAttempt (.submitCandidate (plainRequest "receipt-1" "group-1" 100 (some 8)
    (plainConstraints 1 0 pos_one nonneg_zero)) .accept []),
   plainAttempt (.createAccount "account-1" "run-1" "scenario-1" 10000 "JPY")]

def plainConfig (entriesDisabled : Bool) : WorkerConfig where
  accountId := "account-1"
  entriesDisabled := entriesDisabled
  constraints := fun _ => some (plainConstraints 1 0 pos_one nonneg_zero)
  manager := plainManager
  queue := ⟨10, 40, by norm_num⟩

/-- A cycle at `2000` without observations and candidates. -/
def emptyCycle : Cycle where
  now := 2000
  polled := .ok []
  candidates := .ok []
  cancelClock := fun _ k => 2000 + k
  processClock := fun _ k => 2000 + k
  submitClock := fun _ k => 2000 + k

def newWorker : Worker := ⟨.new, 0, "token-1", fun _ => none, none⟩

end Docich.News
