import Docich.Rotation.Queue

/-!
# The places of a manual request

What processes may do to the places of a request: the inbox, the ledger, the executor.

- `Consistent`: what holds at all times, and `Safe`, what an accepted request keeps;
- `Fits s d`: the ledger `s` may be saved over the data `d`;
- `Move`: the steps, each with the locks it needs; `Move.consistent`, `Move.safe`: every step keeps both;
- `moves`: the contract of the rotation, and what stays when others move (`stable_*`).
-/

namespace Docich.Rotation

open List

open Durable.Locks (Held Contract Apart)

/-! ## Assertions -/

/-- The identifier is in the ledger, queued or pending. -/
def InLedger (id : RequestId) (d : Disk) : Prop :=
  (∃ q, d.queued = some q ∧ q.request_id = id) ∨ ∃ p, d.pending = some p ∧ p.request_id = id

/-- An accepted request: it waits, or the executor was called with it, or it was cancelled. -/
def Safe (id : RequestId) (d : Disk) : Prop := Waiting id d ∨ id ∈ d.executed ∨ id ∈ d.cancelled

/-- The identifier occurs somewhere. -/
def Used (id : RequestId) (d : Disk) : Prop := Safe id d ∨ ∃ k, d.checkpoint = some k ∧ k.request_id = id

/-- The identifier may be that of a checkpoint request: it was not cancelled, and can not be. -/
structure Clean (id : RequestId) (d : Disk) : Prop where
  kept : id ∉ d.cancelled
  timed : ∀ a, d.inbox = some a → a.trigger_at.isSome = true → a.request_id ≠ id
  drawn : ∀ n, id = .random n → n ∈ d.drawn

/-- What holds at all times. -/
structure Consistent (d : Disk) : Prop where
  one : ∀ a b, d.inbox = some a → d.queued = some b → a = b
  gone : ∀ id ∈ d.cancelled, ¬ Waiting id d ∧ id ∉ d.executed
  random : ∀ id ∈ d.cancelled, ∃ n, id = .random n
  sealed : ∀ k, d.checkpoint = some k → k.request_id ∉ d.cancelled
  timed : ∀ a, d.inbox = some a → a.trigger_at.isSome = true → (∃ n, a.request_id = .random n) ∧
    a.request_id ∉ d.executed ∧ (∀ p, d.pending = some p → p.request_id ≠ a.request_id) ∧
    ∀ k, d.checkpoint = some k → k.request_id ≠ a.request_id
  manual : ∀ s, d.ledger = some s → s.manual_pending = none
  drawn : ∀ n, Used (.random n) d → n ∈ d.drawn

/-- Where the pending request of a ledger may come from: it was pending, it was queued and its inbox is empty, or it is
an automatic one. -/
def Comes (p : Pending) (d : Disk) : Prop :=
  (∃ p₀, d.pending = some p₀ ∧ p₀.request_id = p.request_id) ∨
    (d.inbox = none ∧ ∃ q, d.queued = some q ∧ q.request_id = p.request_id) ∨
    ∃ seed slot corner, p.request_id = .named seed slot corner

/-- The ledger `s` may be saved over `d`: it drops no request before the executor was called with it, and takes none
from elsewhere. -/
structure Fits (s : Ledger) (d : Disk) : Prop where
  kept : ∀ id, InLedger id d → (∃ q, s.queued_manual = some q ∧ q.request_id = id) ∨
    (∃ p, s.pending = some p ∧ p.request_id = id) ∨ id ∈ d.executed
  queued : ∀ q, s.queued_manual = some q → d.queued = some q
  pending : ∀ p, s.pending = some p → Comes p d
  manual : s.manual_pending = none

/-! ## Steps -/

/-- What a process may do that holds the locks `h`. -/
inductive Move (h : Held Lock) (d : Disk) : Disk → Prop
  | stay : Move h d d
  | draw (n : Nat) : n ∉ d.drawn → Move h d { d with drawn := n :: d.drawn }
  | save (s : Ledger) : h .rotation = true → Fits s d → Move h d { d with ledger := some s }
  | copy (s : Ledger) (q : Request) : h .rotation = true → h .inbox = true → d.inbox = some q →
      s.queued_manual = some q → s.manual_pending = none → (d.queued = none ∨ d.queued = some q) →
      s.pending = d.pending → Move h d { d with ledger := some s }
  | unlink (q : Request) : h .rotation = true → h .inbox = true → d.inbox = some q → d.queued = some q →
      Move h d (d.unlinked .imported)
  | cancel (q : Request) : h .inbox = true → d.inbox = some q → q.trigger_at.isSome = true → d.queued ≠ some q →
      Move h d (d.unlinked .cancelled)
  | put (q : Request) : h .inbox = true → d.inbox = none → d.queued = none →
      ((∃ n, q.request_id = .random n ∧ n ∈ d.drawn) ∧ ¬ Used q.request_id d ∨
        q.trigger_at = none ∧ Clean q.request_id d) →
      Move h d { d with inbox := some q }
  | run (p : Pending) (c : Option Checkpoint) : h .rotation = true → d.pending = some p →
      Transferred d p.request_id c →
      Move h d { d with executed := p.request_id :: d.executed, checkpoint := c }
  | stamp (k : Checkpoint) : h .inbox = true → Clean k.request_id d → Move h d { d with checkpoint := some k }

variable {h : Held Lock} {d d' : Disk} {id : RequestId} {s t : Ledger}

@[simp] theorem queued_saved : ({ d with ledger := some s } : Disk).queued = s.queued_manual := rfl

/-- A saved ledger puts no identifier into the ledger that did not wait, but for automatic ones. -/
theorem Fits.inLedger (hs : Fits s d) (hi : InLedger id { d with ledger := some s }) :
    InLedger id d ∨ ∃ seed slot corner, id = .named seed slot corner := by
  rcases hi with ⟨q, hq, rfl⟩ | ⟨p, hp, rfl⟩
  · exact .inl (.inl ⟨q, hs.queued q hq, rfl⟩)
  · rcases hs.pending p hp with ⟨p₀, hp₀, he⟩ | ⟨-, q, hq, he⟩ | hn
    · exact .inl (.inr ⟨p₀, hp₀, he⟩)
    · exact .inl (.inl ⟨q, hq, he⟩)
    · exact .inr hn

/-- A request in the ledger stays there, or the executor was called with it. -/
theorem Fits.stays (hs : Fits s d) (hi : InLedger id d) :
    InLedger id { d with ledger := some s } ∨ id ∈ d.executed := by
  rcases hs.kept id hi with hq | hp | he
  · exact .inl (.inl hq)
  · exact .inl (.inr hp)
  · exact .inr he

variable (hm : Move h d d')

include hm in
/-- Every step keeps accepted requests. -/
theorem Move.safe (hs : Safe id d) : Safe id d' := by
  cases hm with
  | stay => exact hs
  | draw n _ => exact hs
  | save s _ hf =>
    rcases hs with hw | he
    · rcases hw with hi | hl
      · exact .inl (.inl hi)
      · rcases hf.stays hl with hl | he
        · exact .inl (.inr hl)
        · exact .inr (.inl he)
    · exact .inr he
  | copy s q _ _ hi hq _ hold hp =>
    rcases hs with hw | he
    · rcases hw with hw | ⟨b, hb, rfl⟩ | ⟨p, hp', rfl⟩
      · exact .inl (.inl hw)
      · rcases hold with hold | hold
        · rw [hb] at hold
          cases hold
        · rw [hb] at hold
          cases hold
          exact .inl (.inr (.inl ⟨_, hq, rfl⟩))
      · exact .inl (.inr (.inr ⟨p, hp.trans hp', rfl⟩))
    · exact .inr he
  | unlink q _ _ hi hq =>
    rcases hs with hw | he
    · rcases hw with ⟨a, ha, rfl⟩ | hl
      · rw [hi] at ha
        cases ha
        exact .inl (.inr (.inl ⟨q, hq, rfl⟩))
      · exact .inl (.inr hl)
    · exact .inr he
  | cancel q _ hi _ _ =>
    have hd : d.unlinked .cancelled = { d with inbox := none, cancelled := q.request_id :: d.cancelled } := by
      simp [Disk.unlinked, hi]
    rw [hd]
    rcases hs with hw | he | hc
    · rcases hw with ⟨a, ha, rfl⟩ | hl
      · rw [hi] at ha
        cases ha
        exact .inr (.inr mem_cons_self)
      · exact .inl (.inr hl)
    · exact .inr (.inl he)
    · exact .inr (.inr (mem_cons_of_mem _ hc))
  | put q _ hn _ _ =>
    rcases hs with hw | he
    · rcases hw with ⟨a, ha, rfl⟩ | hl
      · rw [hn] at ha
        cases ha
      · exact .inl (.inr hl)
    · exact .inr he
  | run p c _ _ _ =>
    rcases hs with hw | he | hc
    · exact .inl hw
    · exact .inr (.inl (mem_cons_of_mem _ he))
    · exact .inr (.inr hc)
  | stamp k _ _ => exact hs

theorem not_cancelled_of_waiting (hc : Consistent d) (hw : Waiting id d) : id ∉ d.cancelled :=
  fun hid => (hc.gone id hid).1 hw

/-- A saved ledger keeps what holds at all times. -/
theorem Consistent.save (hc : Consistent d) (hs : Fits s d) : Consistent { d with ledger := some s } where
  one a b ha hb := hc.one a b ha (hs.queued b hb)
  gone id hid := by
    refine ⟨fun hw => ?_, (hc.gone id hid).2⟩
    rcases hw with hi | hl
    · exact (hc.gone id hid).1 (.inl hi)
    · rcases hs.inLedger hl with hl | ⟨_, _, _, hn⟩
      · exact (hc.gone id hid).1 (.inr hl)
      · obtain ⟨n, hr⟩ := hc.random id hid
        rw [hn] at hr
        cases hr
  random := hc.random
  sealed := hc.sealed
  timed a ha ht := by
    obtain ⟨hr, he, hp, hk⟩ := hc.timed a ha ht
    refine ⟨hr, he, fun p hp' => ?_, hk⟩
    rcases hs.pending p hp' with ⟨p₀, hp₀, hid⟩ | ⟨hn, -⟩ | ⟨_, _, _, hn⟩
    · rw [← hid]
      exact hp p₀ hp₀
    · have hn : d.inbox = none := hn
      rw [hn] at ha
      cases ha
    · obtain ⟨n, hr⟩ := hr
      rw [hn, hr]
      exact fun h => nomatch h
  manual t ht := by
    cases ht
    exact hs.manual
  drawn n hu := by
    refine hc.drawn n ?_
    rcases hu with (hw | he) | hk
    · rcases hw with hi | hl
      · exact .inl (.inl (.inl hi))
      · rcases hs.inLedger hl with hl | ⟨_, _, _, hn⟩
        · exact .inl (.inl (.inr hl))
        · cases hn
    · exact .inl (.inr he)
    · exact .inr hk

/-- The durable copy of the inbox keeps what holds at all times. -/
theorem Consistent.copied {q : Request} (hc : Consistent d) (hi : d.inbox = some q) (hq : s.queued_manual = some q)
    (hm : s.manual_pending = none) (hp : s.pending = d.pending) : Consistent { d with ledger := some s } := by
  have hw : ∀ {id}, Waiting id { d with ledger := some s } → Waiting id d := by
    intro id hw
    rcases hw with hw | ⟨b, hb, rfl⟩ | ⟨p, hp', rfl⟩
    · exact .inl hw
    · rw [queued_saved, hq] at hb
      cases hb
      exact .inl ⟨q, hi, rfl⟩
    · exact .inr (.inr ⟨p, hp.symm.trans hp', rfl⟩)
  exact
    { one := fun a b ha hb => by
        rw [queued_saved, hq] at hb
        cases hb
        exact Option.some.inj (ha.symm.trans hi)
      gone := fun id hid => ⟨fun h => (hc.gone id hid).1 (hw h), (hc.gone id hid).2⟩
      random := hc.random
      sealed := hc.sealed
      timed := fun a ha ht => by
        obtain ⟨hr, he, hpe, hk⟩ := hc.timed a ha ht
        exact ⟨hr, he, fun p hp' => hpe p (hp.symm.trans hp'), hk⟩
      manual := fun t ht => by
        cases ht
        exact hm
      drawn := fun n hu => by
        refine hc.drawn n ?_
        rcases hu with (h | h) | h
        · exact .inl (.inl (hw h))
        · exact .inl (.inr h)
        · exact .inr h }

/-- An empty inbox keeps what holds at all times. -/
theorem Consistent.unlinked (hc : Consistent d) : Consistent (d.unlinked .imported) where
  one a b ha := nomatch ha
  gone id hid := by
    refine ⟨fun hw => (hc.gone id hid).1 ?_, (hc.gone id hid).2⟩
    rcases hw with ⟨a, ha, -⟩ | hl
    · cases ha
    · exact .inr hl
  random := hc.random
  sealed := hc.sealed
  timed a ha := nomatch ha
  manual := hc.manual
  drawn n hu := by
    refine hc.drawn n ?_
    rcases hu with (hw | h) | h
    · rcases hw with ⟨a, ha, -⟩ | hl
      · cases ha
      · exact .inl (.inl (.inr hl))
    · exact .inl (.inr h)
    · exact .inr h

/-- A request that is cancelled has to be nowhere else. -/
theorem Consistent.cancelled {q : Request} (hc : Consistent d) (hi : d.inbox = some q)
    (ht : q.trigger_at.isSome = true) (hq : d.queued ≠ some q) : Consistent (d.unlinked .cancelled) := by
  have hd : d.unlinked .cancelled = { d with inbox := none, cancelled := q.request_id :: d.cancelled } := by
    simp [Disk.unlinked, hi]
  obtain ⟨hr, he, hp, hk⟩ := hc.timed q hi ht
  rw [hd]
  have hnot : ¬ InLedger q.request_id d := by
    rintro (⟨b, hb, -⟩ | ⟨p, hp', hid⟩)
    · rw [← hc.one q b hi hb] at hb
      exact hq hb
    · exact hp p hp' hid
  refine ⟨fun a b ha => (nomatch ha), fun id hid => ?_, fun id hid => ?_, fun k hk' hid => ?_, fun a ha => (nomatch ha),
    hc.manual, fun n hu => hc.drawn n ?_⟩
  · rcases mem_cons.mp hid with rfl | hid
    · refine ⟨fun hw => ?_, he⟩
      rcases hw with ⟨a, ha, -⟩ | hl
      · cases ha
      · exact hnot hl
    · refine ⟨fun hw => (hc.gone id hid).1 ?_, (hc.gone id hid).2⟩
      rcases hw with ⟨a, ha, -⟩ | hl
      · cases ha
      · exact .inr hl
  · rcases mem_cons.mp hid with rfl | hid
    · exact hr
    · exact hc.random id hid
  · rcases mem_cons.mp hid with hid | hid
    · exact hk k hk' hid
    · exact hc.sealed k hk' hid
  · rcases hu with (hw | h | h) | h
    · rcases hw with ⟨a, ha, -⟩ | hl
      · cases ha
      · exact .inl (.inl (.inr hl))
    · exact .inl (.inr (.inl h))
    · rcases mem_cons.mp h with h | h
      · exact .inl (.inl (.inl ⟨q, hi, h.symm⟩))
      · exact .inl (.inr (.inr h))
    · exact .inr h

theorem Consistent.put {q : Request} (hc : Consistent d) (hq : d.queued = none)
    (hf : (∃ n, q.request_id = .random n ∧ n ∈ d.drawn) ∧ ¬ Used q.request_id d ∨
      q.trigger_at = none ∧ Clean q.request_id d) :
    Consistent { d with inbox := some q } := by
  have hw : ∀ {id}, Waiting id { d with inbox := some q } → id = q.request_id ∨ Waiting id d := by
    rintro id (⟨a, ha, rfl⟩ | hl)
    · cases ha
      exact .inl rfl
    · exact .inr (.inr hl)
  refine ⟨fun a b ha hb => ?_, fun id hid => ⟨fun h => ?_, (hc.gone id hid).2⟩, hc.random, hc.sealed, fun a ha ht => ?_,
    hc.manual, fun n hu => ?_⟩
  · have hb : d.queued = some b := hb
    rw [hq] at hb
    cases hb
  · rcases hw h with rfl | h
    · rcases hf with ⟨-, hu⟩ | ⟨-, hclean⟩
      · exact hu (.inl (.inr (.inr hid)))
      · exact hclean.kept hid
    · exact (hc.gone id hid).1 h
  · cases ha
    rcases hf with ⟨⟨n, hr, -⟩, hu⟩ | ⟨hnone, -⟩
    · exact ⟨⟨n, hr⟩, fun he => hu (.inl (.inr (.inl he))), fun p hp he => hu (.inl (.inl (.inr (.inr ⟨p, hp, he⟩)))),
        fun k hk he => hu (.inr ⟨k, hk, he⟩)⟩
    · rw [hnone] at ht
      cases ht
  · rcases hu with (h | h) | h
    · rcases hw h with he | h
      · rcases hf with ⟨⟨m, hr, hm⟩, -⟩ | ⟨-, hclean⟩
        · rw [hr] at he
          cases he
          exact hm
        · exact hclean.drawn n he.symm
      · exact hc.drawn n (.inl (.inl h))
    · exact hc.drawn n (.inl (.inr h))
    · exact hc.drawn n (.inr h)

theorem Consistent.run {p : Pending} {c : Option Checkpoint} (hc : Consistent d) (hp : d.pending = some p)
    (ht : Transferred d p.request_id c) :
    Consistent { d with executed := p.request_id :: d.executed, checkpoint := c } := by
  have hw : Waiting p.request_id d := .inr (.inr ⟨p, hp, rfl⟩)
  refine ⟨hc.one, fun id hid => ⟨(hc.gone id hid).1, fun he => ?_⟩, hc.random, fun k hk => ?_, fun a ha htr => ?_,
    hc.manual, fun n hu => hc.drawn n ?_⟩
  · rcases mem_cons.mp he with rfl | he
    · exact (hc.gone _ hid).1 hw
    · exact (hc.gone id hid).2 he
  · rcases ht k hk with hid | ⟨k₀, hk₀, hid⟩
    · show k.request_id ∉ d.cancelled
      rw [hid]
      exact not_cancelled_of_waiting hc hw
    · rw [hid]
      exact hc.sealed k₀ hk₀
  · obtain ⟨hr, he, hpe, hk⟩ := hc.timed a ha htr
    refine ⟨hr, fun h => ?_, hpe, fun k hk' => ?_⟩
    · rcases mem_cons.mp h with h | h
      · exact hpe p hp h.symm
      · exact he h
    · rcases ht k hk' with hid | ⟨k₀, hk₀, hid⟩
      · rw [hid]
        exact hpe p hp
      · rw [hid]
        exact hk k₀ hk₀
  · rcases hu with (h | h | h) | ⟨k, hk, hid⟩
    · exact .inl (.inl h)
    · rcases mem_cons.mp h with h | h
      · exact .inl (.inl (h ▸ hw))
      · exact .inl (.inr (.inl h))
    · exact .inl (.inr (.inr h))
    · rcases ht k hk with h | ⟨k₀, hk₀, h⟩
      · exact .inl (.inl (hid ▸ h ▸ hw))
      · exact .inr ⟨k₀, hk₀, h ▸ hid⟩

theorem Consistent.stamped {k : Checkpoint} (hc : Consistent d) (hk : Clean k.request_id d) :
    Consistent { d with checkpoint := some k } := by
  refine ⟨hc.one, hc.gone, hc.random, fun k' hk' => ?_, fun a ha ht => ?_, hc.manual, fun n hu => ?_⟩
  · cases hk'
    exact hk.kept
  · obtain ⟨hr, he, hp, -⟩ := hc.timed a ha ht
    refine ⟨hr, he, hp, fun k' hk' => ?_⟩
    cases hk'
    exact (hk.timed a ha ht).symm
  · rcases hu with h | ⟨k', hk', hid⟩
    · exact hc.drawn n (.inl h)
    · cases hk'
      exact hk.drawn n hid

theorem Consistent.clean {k : Checkpoint} (hc : Consistent d) (hk : d.checkpoint = some k) : Clean k.request_id d where
  kept := hc.sealed k hk
  timed a ha ht he := (hc.timed a ha ht).2.2.2 k hk he.symm
  drawn n hn := hc.drawn n (.inr ⟨k, hk, hn⟩)

/-- An identifier that is drawn and not used is clean. -/
theorem clean_of_unused {n : Nat} (hn : n ∈ d.drawn) (hu : ¬ Used (.random n) d) : Clean (.random n) d where
  kept hid := hu (.inl (.inr (.inr hid)))
  timed a ha _ he := hu (.inl (.inl (.inl ⟨a, ha, he⟩)))
  drawn m hm := by
    cases hm
    exact hn

include hm in
/-- Every step keeps what holds at all times. -/
theorem Move.consistent (hc : Consistent d) : Consistent d' := by
  cases hm with
  | stay => exact hc
  | draw n _ =>
    exact ⟨hc.one, hc.gone, hc.random, hc.sealed, hc.timed, hc.manual,
      fun m hu => mem_cons_of_mem _ (hc.drawn m hu)⟩
  | save s _ hs => exact hc.save hs
  | copy s q _ _ hi hq hm _ hp => exact hc.copied hi hq hm hp
  | unlink => exact hc.unlinked
  | cancel q _ hi ht hq => exact hc.cancelled hi ht hq
  | put q _ _ hq hf => exact hc.put hq hf
  | run p c _ hp ht => exact hc.run hp ht
  | stamp k _ hk => exact hc.stamped hk

def moves : Contract Lock Disk where
  step := Move
  known := Consistent
  kept := fun _ _ _ hc hm => hm.consistent hc

/-! ## What stays when others move -/

include hm

/-- Whoever holds the rotation lock finds the ledger and the executed requests as they were. -/
theorem Move.ledger_eq (hh : h .rotation = false) :
    d'.ledger = d.ledger ∧ d'.executed = d.executed := by
  cases hm with
  | stay | draw | put | stamp => exact ⟨rfl, rfl⟩
  | save _ hr | copy _ _ hr | unlink _ hr | run _ _ hr =>
    rw [hh] at hr
    cases hr
  | cancel q _ hi =>
    have hd : d.unlinked .cancelled = { d with inbox := none, cancelled := q.request_id :: d.cancelled } := by
      simp [Disk.unlinked, hi]
    rw [hd]
    exact ⟨rfl, rfl⟩

/-- Whoever holds the rotation lock finds an empty inbox only filled when nothing is queued. -/
theorem Move.inbox_eq (hh : h .rotation = false) (hn : d.inbox = none) (hq : d.queued ≠ none) :
    d'.inbox = none := by
  cases hm with
  | stay | draw | stamp => exact hn
  | save _ hr | copy _ _ hr | unlink _ hr | run _ _ hr =>
    rw [hh] at hr
    cases hr
  | cancel q _ hi =>
    rw [hn] at hi
    cases hi
  | put q _ _ hq' => exact absurd hq' hq

/-- Whoever holds the inbox lock finds the inbox as it was, and nothing queued that was not. -/
theorem Move.inbox_kept (hh : h .inbox = false) :
    d'.inbox = d.inbox ∧ (d.queued = none → d'.queued = none) := by
  cases hm with
  | stay | draw => exact ⟨rfl, id⟩
  | save s _ hs =>
    refine ⟨rfl, fun hn => ?_⟩
    cases hq : s.queued_manual with
    | none => exact hq
    | some q =>
      have := hs.queued q hq
      rw [hn] at this
      cases this
  | run => exact ⟨rfl, id⟩
  | copy _ _ _ hi | unlink _ _ hi | cancel _ hi | put _ hi | stamp _ hi =>
    rw [hh] at hi
    cases hi

end Docich.Rotation
