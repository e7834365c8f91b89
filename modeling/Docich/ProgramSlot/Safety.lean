import Docich.ProgramSlot.Machine
import Mathlib.Data.Fintype.Basic

/-!
# One corner at a time, and in turn

- `Advances`: what one step of a corner can do;
- `Good`: what holds of a corner at each place of its run, kept by every act;
- `Overtakes`: a corner queues with an earlier request than that of another, past the other's look at its file;
- `safe_of_fair`: in runs without such a step one corner is inside at a time, the registry names it, nobody enters over
  an owner observed as busy or over an earlier request, and no run ends with its entry waiting or running.
-/

namespace Docich.ProgramSlot

open List Option Function

open Ranked (sortBy)
open Paired (Along foldl_of_along)

variable {C P : Type}

/-! ## Places -/

def Loc.locked : Loc C → Bool
  | .owner | .listing | .looking _ | .ready | .register | .running | .inside | .left _ | .unlock _ => true
  | _ => false

/-- Between taking the slot and giving it back. -/
def Loc.inSlot : Loc C → Bool
  | .running | .inside | .left _ => true
  | _ => false

/-- The owner in the registry was found free, and the corner has not taken the slot yet. -/
def Loc.cleared : Loc C → Bool
  | .listing | .looking _ | .ready | .register => true
  | _ => false

variable {l : Loc C} {s : Sys C P}

theorem locked_of_inSlot (h : l.inSlot = true) : l.locked = true := by
  cases l <;> first | rfl | cases h

theorem locked_of_cleared (h : l.cleared = true) : l.locked = true := by
  cases l <;> first | rfl | cases h

theorem locked_of_isOut (h : l.isOut = true) : l.locked = false := by
  cases l <;> first | rfl | cases h

/-- The corner has looked at the file of `x` and not entered yet. -/
def Loc.Past : Loc C → C → Prop
  | .looking rest, x => x ∉ rest
  | .ready, _ | .register, _ | .running, _ => True
  | _, _ => False

instance [DecidableEq C] (l : Loc C) (x : C) : Decidable (l.Past x) :=
  match l with
  | .looking rest => inferInstanceAs (Decidable (x ∉ rest))
  | .ready | .register | .running => isTrue trivial
  | .idle | .announce | .boundary | .boundaryTime | .boundarySleep | .boundaryExpired | .boundaryFailed _ | .enqueue | .lock
  | .owner | .listing | .inside | .left _ | .unlock _ | .time | .sleep | .expire | .handler _ | .ended | .dead => isFalse id

def Status.isSettled : Status → Bool
  | .waiting | .waiting_turn | .waiting_boundary | .running => false
  | _ => true

/-- The status of the own entry, where it matters later. -/
def Loc.Quiet : Loc C → Status → Prop
  | .ended, st | .unlock .returned, st => st.isSettled = true
  | .lock, st | .owner, st | .listing, st | .looking _, st | .ready, st | .register, st | .unlock _, st | .time, st
  | .sleep, st | .expire, st | .handler _, st => st ≠ .running
  | _, _ => True

section Entries

variable [DecidableEq C]

def Sys.status (s : Sys C P) (c : C) : Status := ((s.entry c).getD .missing).status

theorem lookup_put (queue : List (C × Entry)) (c x : C) (e : Entry) :
    (put queue c e).lookup x = if x = c then some e else queue.lookup x := by
  unfold put
  rw [lookup_cons]
  by_cases h : x = c
  · simp [h]
  · rw [beq_eq_false_iff_ne.mpr h, if_neg h]
    simp only
    induction queue with
    | nil => rfl
    | cons f queue ih =>
      by_cases hf : f.1 = c
      · rw [filter_cons_of_neg (by simpa using hf), lookup_cons, beq_eq_false_iff_ne.mpr (hf ▸ h)]
        exact ih
      · rw [filter_cons_of_pos (by simpa using hf), lookup_cons, lookup_cons, ih]

theorem mem_keys_of_lookup {queue : List (C × Entry)} {c : C} {e : Entry} (h : queue.lookup c = some e) :
    c ∈ queue.map Prod.fst := by
  induction queue with
  | nil => cases h
  | cons f queue ih =>
    rw [lookup_cons] at h
    by_cases hf : c = f.1
    · rw [hf]
      exact mem_cons_self
    · rw [beq_eq_false_iff_ne.mpr hf] at h
      exact mem_cons_of_mem _ (ih h)

end Entries

theorem settled_of_not_waiting {st : Status} (h : st ∉ [Status.waiting, .waiting_turn, .waiting_boundary]) (hne : st ≠ .running) :
    st.isSettled = true := by
  cases st <;> simp at h hne ⊢ <;> rfl

/-! ## One step of a corner -/

variable [LinearOrder C]

/-- The entry of the corner after a step. -/
def Outcome.status (s : Sys C P) (c : C) (o : Outcome C P) : Status := (o.entry.getD ((s.entry c).getD .missing)).status

/-- What one step of a corner can do. -/
structure Advances (s : Sys C P) (c : C) (o : Outcome C P) : Prop where
  kept : o.lock = none → o.proc.loc.locked = (s.procs c).loc.locked
  taken : o.lock = some true → s.lock = none ∧ (s.procs c).loc.locked = false ∧ o.proc.loc.locked = true
  freed : o.lock = some false → (s.procs c).loc.locked = true ∧ o.proc.loc.locked = false
  registers : o.register = true → (s.procs c).loc = .register
  inSlot : o.proc.loc.inSlot = true → (s.procs c).loc.inSlot = true ∨ o.register = true
  cleared : o.proc.loc.cleared = true → o.register = false ∧
    (((s.procs c).loc.cleared = true ∧ o.proc.observed = (s.procs c).observed) ∨
      ∀ w, s.registry = .owner w → w ≠ .corner c → o.proc.observed = some (w, false))
  quiet : (s.procs c).loc.Quiet (s.status c) → o.proc.loc.Quiet (o.status s c)
  requested_at : o.proc.requested_at = (s.procs c).requested_at
  past : ∀ x, x ≠ c → o.proc.loc.Past x → (s.procs c).loc.Past x ∨
    ((s.entry x).getD .missing).isEarlier (s.procs c).requested_at = false
  writes : ∀ e, o.entry = some e → ∀ r, e.isEarlier r = true →
    (s.procs c).loc = .enqueue ∧ (s.procs c).requested_at < r

section Cases

variable {s : Sys C P} {c : C} {l l' : Loc C}

/-- A step that only goes on. -/
theorem advances_move (hl : (s.procs c).loc = l)
    (hpast : ∀ x, x ≠ c → l'.Past x → l.Past x ∨ ((s.entry x).getD .missing).isEarlier (s.procs c).requested_at = false)
    (hlocked : l'.locked = l.locked := by rfl)
    (hslot : l'.inSlot = true → l.inSlot = true := by nofun)
    (hcleared : l'.cleared = true → l.cleared = true := by nofun)
    (hquiet : ∀ st, l.Quiet st → l'.Quiet st := by exact fun _ h => h) : Advances s c ⟨(s.procs c).at l', none, none, false⟩ where
  kept _ := by rw [hl]; exact hlocked
  taken := nofun
  freed := nofun
  registers := nofun
  inSlot h := .inl (by rw [hl]; exact hslot h)
  cleared h := ⟨rfl, .inl ⟨by rw [hl]; exact hcleared h, rfl⟩⟩
  quiet h := by
    rw [hl] at h
    exact hquiet _ h
  requested_at := rfl
  past x hx h := by
    rw [hl]
    exact hpast x hx h
  writes := nofun

/-- A step that writes the own entry. -/
theorem advances_write {e : Entry} (hl : (s.procs c).loc = l) (hquiet : l.Quiet (s.status c) → l'.Quiet e.status)
    (hwrites : ∀ r, e.isEarlier r = true → l = .enqueue ∧ (s.procs c).requested_at < r)
    (hlocked : l'.locked = l.locked := by rfl)
    (hslot : l'.inSlot = true → l.inSlot = true := by nofun)
    (hcleared : l'.cleared = false := by rfl)
    (hpast : ∀ x, ¬ l'.Past x := by exact fun _ h => h) : Advances s c ⟨(s.procs c).at l', some e, none, false⟩ where
  kept _ := by rw [hl]; exact hlocked
  taken := nofun
  freed := nofun
  registers := nofun
  inSlot h := .inl (by rw [hl]; exact hslot h)
  cleared h := by
    rw [show ((s.procs c).at l').loc = l' from rfl, hcleared] at h
    cases h
  quiet h := by
    rw [hl] at h
    exact hquiet h
  requested_at := rfl
  past x hx h := absurd h (hpast x)
  writes e' he r hr := by
    cases he
    rw [hl]
    exact hwrites r hr

/-- A status that does not wait overtakes nobody. -/
theorem isEarlier_withStatus {st : Status} (h : st ≠ .waiting ∧ st ≠ .waiting_turn) {r : ℚ} {Q : Prop}
    (hr : (s.withStatus c st).isEarlier r = true) : Q := by
  simp [Entry.isEarlier, Sys.withStatus, h.1, h.2] at hr

theorem mem_names {x : C} (h : x ∉ s.names) (r : ℚ) : ((s.entry x).getD .missing).isEarlier r = false := by
  cases hx : s.entry x with
  | none => rfl
  | some e => exact absurd (Ranked.mem_sortBy.mpr (mem_keys_of_lookup hx)) h

theorem ownerFree_spec [DecidableEq P] {input : Input} {o : Outcome C P} (hl : (s.procs c).loc = .owner)
    (h : ownerFree s c (s.procs c) input = some o) : Advances s c o := by
  have hgo : (∀ w, s.registry = .owner w → w = .corner c) →
      Advances s c ⟨(s.procs c).at .listing, none, none, false⟩ := fun hfree => {
    kept := fun _ => by rw [hl]; rfl
    taken := nofun
    freed := nofun
    registers := nofun
    inSlot := nofun
    cleared := fun _ => ⟨rfl, .inr fun w hw hne => absurd (hfree w hw) hne⟩
    quiet := fun hq => by rw [hl] at hq; exact hq
    requested_at := rfl
    past := fun _ _ hp => hp.elim
    writes := nofun }
  unfold ownerFree at h
  split at h
  · next hregistry =>
    cases h
    exact hgo fun w hw => by rw [hregistry] at hw; cases hw
  · cases h
    exact advances_move hl nofun
  · next w hregistry =>
    split at h
    · next hown =>
      cases h
      exact hgo fun w' hw' => by rw [hregistry] at hw'; cases hw'; exact hown
    · cases h
  · next w busy hregistry =>
    split at h
    · cases h
    · cases h
      cases busy with
      | true =>
        exact {
          kept := fun _ => by rw [hl]; rfl
          taken := nofun
          freed := nofun
          registers := nofun
          inSlot := nofun
          cleared := nofun
          quiet := fun hq => by rw [hl] at hq; exact hq
          requested_at := rfl
          past := fun _ _ hp => hp.elim
          writes := nofun }
      | false =>
        exact {
          kept := fun _ => by rw [hl]; rfl
          taken := nofun
          freed := nofun
          registers := nofun
          inSlot := nofun
          cleared := fun _ => ⟨rfl, .inr fun w' hw' _ => by rw [hregistry] at hw'; cases hw'; rfl⟩
          quiet := fun hq => by rw [hl] at hq; exact hq
          requested_at := rfl
          past := fun _ _ hp => hp.elim
          writes := nofun }
  · cases h
    exact advances_move hl nofun
  · cases h

end Cases

theorem advance_spec [DecidableEq P] {c : C} {input : Input} {o : Outcome C P} (h : advance s c input = some o) :
    Advances s c o := by
  cases hl : (s.procs c).loc with
  | idle | ended | dead =>
    simp only [advance, hl] at h
    cases h
  | announce =>
    cases input <;> simp only [advance, hl, write] at h <;> cases h
    split
    · exact advances_write hl (fun _ => trivial) nofun
    · exact advances_write hl (fun _ => trivial) nofun
  | boundary =>
    cases input <;> simp only [advance, hl, move] at h <;> cases h
    · next ready => cases ready <;> exact advances_move hl nofun
    · exact advances_move hl nofun
  | boundaryTime =>
    cases input <;> simp only [advance, hl, move] at h <;> cases h
    · next late => cases late <;> exact advances_move hl nofun
    · exact advances_move hl nofun
  | boundarySleep =>
    cases input <;> simp only [advance, hl, move] at h <;> cases h
    · exact advances_move hl nofun
    · exact advances_move hl nofun
  | boundaryExpired =>
    cases input <;> simp only [advance, hl, write] at h <;> cases h
    exact advances_write hl (fun _ => rfl) fun r hr => isEarlier_withStatus (by decide) hr
  | boundaryFailed e =>
    cases input <;> simp only [advance, hl, write] at h <;> cases h
    cases e with
    | registry => exact advances_write hl (fun _ => rfl) fun r hr => isEarlier_withStatus (by decide) hr
    | other => exact advances_write hl (fun _ => rfl) fun r hr => isEarlier_withStatus (by decide) hr
  | enqueue =>
    cases input <;> simp only [advance, hl, write] at h <;> cases h
    refine advances_write hl (fun _ => ?_) fun r hr => ⟨rfl, ?_⟩
    · cases (s.procs c).entrance <;> exact nofun
    · simp only [Entry.isEarlier, Bool.and_eq_true, any_some, decide_eq_true_eq] at hr
      exact hr.2
  | lock =>
    cases input <;> simp only [advance, hl, move] at h
    · cases h
    · next granted =>
      cases granted with
      | false =>
        cases h
        exact advances_move hl nofun
      | true =>
        simp only [if_true] at h
        split at h
        · next hfree =>
          cases h
          exact {
            kept := nofun
            taken := fun _ => ⟨hfree, by rw [hl]; rfl, rfl⟩
            freed := nofun
            registers := nofun
            inSlot := nofun
            cleared := nofun
            quiet := fun hq => by rw [hl] at hq; exact hq
            requested_at := rfl
            past := fun _ _ hp => hp.elim
            writes := nofun }
        · cases h
    · cases h
      exact advances_move hl nofun
  | owner => exact ownerFree_spec hl (by simpa only [advance, hl] using h)
  | listing =>
    cases input <;> simp only [advance, hl, move] at h <;> cases h
    exact advances_move hl (fun x _ hx => .inr (mem_names hx _)) rfl nofun fun _ => rfl
  | looking rest =>
    cases rest with
    | nil =>
      cases input <;> simp only [advance, hl, move] at h <;> cases h
      split
      · exact advances_move hl (fun x _ _ => .inl (by simp [Loc.Past])) rfl nofun fun _ => rfl
      · exact advances_move hl (fun x _ _ => .inl (by simp [Loc.Past])) rfl nofun fun _ => rfl
    | cons other rest =>
      cases input <;> simp only [advance, hl, move] at h
      · split at h
        · cases h
          exact advances_move hl nofun
        · next hlook =>
          cases h
          refine advances_move hl (fun x hx hpast => ?_) rfl nofun fun _ => rfl
          by_cases hother : x = other
          · right
            rw [hother] at hx ⊢
            exact Bool.eq_false_iff.mpr fun hearlier => hlook ⟨hx, hearlier⟩
          · left
            rw [Loc.Past, mem_cons, not_or]
            exact ⟨hother, hpast⟩
      · cases h
      · cases h
  | ready =>
    cases input <;> simp only [advance, hl, move] at h <;> cases h
    · next ready =>
      cases ready with
      | true => exact advances_move hl (fun x _ _ => .inl trivial) rfl nofun fun _ => rfl
      | false => exact advances_move hl nofun
    · exact advances_move hl nofun
  | register =>
    cases input <;> simp only [advance, hl] at h <;> cases h
    exact {
      kept := fun _ => by rw [hl]; rfl
      taken := nofun
      freed := nofun
      registers := fun _ => hl
      inSlot := fun _ => .inr rfl
      cleared := nofun
      quiet := fun _ => trivial
      requested_at := rfl
      past := fun x _ _ => .inl (by rw [hl]; trivial)
      writes := nofun }
  | running =>
    cases input <;> simp only [advance, hl, write] at h <;> cases h
    exact advances_write hl (fun _ => trivial) (fun r hr => isEarlier_withStatus (by decide) hr) rfl fun _ => rfl
  | inside =>
    cases input <;> simp only [advance, hl, move] at h <;> cases h
    · exact advances_move hl nofun rfl fun _ => rfl
    · exact advances_move hl nofun rfl fun _ => rfl
  | left raised =>
    cases raised with
    | false =>
      cases input <;> simp only [advance, hl, write] at h <;> cases h
      exact advances_write hl (fun _ => rfl) fun r hr => isEarlier_withStatus (by decide) hr
    | true =>
      cases input <;> simp only [advance, hl, write] at h <;> cases h
      exact advances_write hl (fun _ => nofun) fun r hr => isEarlier_withStatus (by decide) hr
  | unlock exit =>
    cases input <;> simp only [advance, hl] at h <;> cases h
    exact {
      kept := nofun
      taken := nofun
      freed := fun _ => ⟨by rw [hl]; rfl, by cases exit <;> rfl⟩
      registers := nofun
      inSlot := by cases exit <;> exact nofun
      cleared := by cases exit <;> exact nofun
      quiet := by
        rw [hl]
        cases exit <;> exact fun hq => hq
      requested_at := rfl
      past := by cases exit <;> exact fun _ _ hp => hp.elim
      writes := nofun }
  | time =>
    cases input <;> simp only [advance, hl, move] at h <;> cases h
    · next late => cases late <;> exact advances_move hl nofun
    · exact advances_move hl nofun
  | sleep =>
    cases input <;> simp only [advance, hl, move] at h <;> cases h
    · exact advances_move hl nofun
    · exact advances_move hl nofun
  | expire =>
    cases input <;> simp only [advance, hl, write] at h <;> cases h
    exact advances_write hl (fun _ => rfl) fun r hr => isEarlier_withStatus (by decide) hr
  | handler e =>
    cases input <;> simp only [advance, hl, move, write] at h
    · split at h
      · cases h
        cases e with
        | registry => exact advances_write hl (fun _ => rfl) fun r hr => isEarlier_withStatus (by decide) hr
        | other => exact advances_write hl (fun _ => rfl) fun r hr => isEarlier_withStatus (by decide) hr
      · next hnot =>
        cases h
        exact {
          kept := fun _ => by rw [hl]; rfl
          taken := nofun
          freed := nofun
          registers := nofun
          inSlot := nofun
          cleared := nofun
          quiet := fun hq => by
            rw [hl] at hq
            exact settled_of_not_waiting hnot hq
          requested_at := rfl
          past := fun _ _ hp => hp.elim
          writes := nofun }
    · cases h
    · cases h

/-! ## What holds of a corner -/

structure Good (s : Sys C P) (c : C) : Prop where
  lock : (s.procs c).loc.locked = true ↔ s.lock = some c
  named : (s.procs c).loc.inSlot = true → s.registry = .owner (.corner c)
  free : (s.procs c).loc.cleared = true → ∀ w, s.registry = .owner w → w ≠ .corner c →
    (s.procs c).observed = some (w, false)
  quiet : (s.procs c).loc.Quiet (s.status c)

/-- No earlier request waits behind the look of the corner. -/
def InTurn (s : Sys C P) (c : C) : Prop :=
  ∀ x, x ≠ c → (s.procs c).loc.Past x → ((s.entry x).getD .missing).isEarlier (s.procs c).requested_at = false

/-- A corner queues with an earlier request than that of another, which is past its look at the file and has not entered. -/
def Overtakes (s : Sys C P) : Act C P → Prop
  | .step x _ => (s.procs x).loc = .enqueue ∧
      ∃ c, c ≠ x ∧ (s.procs c).loc.Past x ∧ (s.procs x).requested_at < (s.procs c).requested_at
  | _ => False

section Apply

variable {s : Sys C P} {c c' : C} {o : Outcome C P}

theorem procs_apply_self : (s.apply c o).procs c = o.proc := update_self ..

theorem procs_apply_ne (h : c' ≠ c) : (s.apply c o).procs c' = s.procs c' := update_of_ne h ..

theorem entry_apply (x : C) : (s.apply c o).entry x = if x = c then o.entry.or (s.entry c) else s.entry x := by
  unfold Sys.entry Sys.apply
  cases o.entry with
  | none =>
    by_cases h : x = c
    · simp [h]
    · simp [h]
  | some e => simp only [lookup_put, some_or]

theorem status_apply_self : (s.apply c o).status c = o.status s c := by
  unfold Sys.status Outcome.status
  rw [entry_apply, if_pos rfl]
  cases o.entry <;> rfl

/-- The corner that made a step. -/
theorem good_self (h : Good s c) (ho : Advances s c o) : Good (s.apply c o) c where
  lock := by
    rw [procs_apply_self]
    cases hlock : o.lock with
    | none =>
      rw [ho.kept hlock, h.lock]
      simp [Sys.apply, hlock]
    | some b =>
      cases b with
      | true => simp [Sys.apply, hlock, (ho.taken hlock).2.2]
      | false => simp [Sys.apply, hlock, (ho.freed hlock).2]
  named hin := by
    rw [procs_apply_self] at hin
    cases hregister : o.register with
    | true => simp [Sys.apply, hregister]
    | false =>
      rcases ho.inSlot hin with hslot | hregister'
      · simp [Sys.apply, hregister, h.named hslot]
      · cases hregister.symm.trans hregister'
  free hcleared w hw hne := by
    rw [procs_apply_self] at hcleared ⊢
    obtain ⟨hregister, hfree⟩ := ho.cleared hcleared
    have hregistry : (s.apply c o).registry = s.registry := by simp [Sys.apply, hregister]
    rw [hregistry] at hw
    rcases hfree with ⟨hbefore, hobserved⟩ | hfree
    · rw [hobserved]
      exact h.free hbefore w hw hne
    · exact hfree w hw hne
  quiet := by
    rw [procs_apply_self, status_apply_self]
    exact ho.quiet h.quiet

/-- Another corner. -/
theorem good_other (hne : c' ≠ c) (hc : Good s c) (h : Good s c') (ho : Advances s c o) : Good (s.apply c o) c' := by
  have hregistry : (s.procs c').loc.locked = true → (s.apply c o).registry = s.registry := by
    intro hlocked
    have hnot : o.register = false := by
      by_contra hregister
      have hmine : (s.procs c).loc.locked = true := by
        rw [ho.registers (by simpa using hregister)]
        rfl
      have hsame := (hc.lock.mp hmine).symm.trans (h.lock.mp hlocked)
      exact hne (some.inj hsame).symm
    simp [Sys.apply, hnot]
  refine ⟨?_, fun hin => ?_, fun hcleared w hw hne' => ?_, ?_⟩
  · rw [procs_apply_ne hne, h.lock]
    cases hlock : o.lock with
    | none => simp [Sys.apply, hlock]
    | some b =>
      cases b with
      | true => simp [Sys.apply, hlock, (ho.taken hlock).1, Ne.symm hne]
      | false => simp [Sys.apply, hlock, hc.lock.mp (ho.freed hlock).1, Ne.symm hne]
  · rw [procs_apply_ne hne] at hin
    rw [hregistry (locked_of_inSlot hin)]
    exact h.named hin
  · rw [procs_apply_ne hne] at hcleared ⊢
    rw [hregistry (locked_of_cleared hcleared)] at hw
    exact h.free hcleared w hw hne'
  · rw [procs_apply_ne hne, Sys.status, entry_apply, if_neg hne]
    exact h.quiet

theorem inTurn_apply (h : ∀ c, InTurn s c) (ho : Advances s c o) (hfair : (s.procs c).loc = .enqueue →
    ∀ c', c' ≠ c → (s.procs c').loc.Past c → ¬ (s.procs c).requested_at < (s.procs c').requested_at) (c' : C) :
    InTurn (s.apply c o) c' := by
  intro x hx hpast
  by_cases hc : c' = c
  · subst hc
    rw [procs_apply_self] at hpast ⊢
    rw [entry_apply, if_neg hx, ho.requested_at]
    rcases ho.past x hx hpast with hbefore | hnot
    · exact h c' x hx hbefore
    · exact hnot
  · rw [procs_apply_ne hc] at hpast ⊢
    rw [entry_apply]
    by_cases hxc : x = c
    · rw [if_pos hxc]
      cases hentry : o.entry with
      | none =>
        rw [none_or, ← hxc]
        exact h c' x hx hpast
      | some e =>
        rw [some_or, getD_some, Bool.eq_false_iff]
        intro hearlier
        obtain ⟨hloc, hlt⟩ := ho.writes e hentry _ hearlier
        exact hfair hloc c' hc (hxc ▸ hpast) hlt
    · rw [if_neg hxc]
      exact h c' x hx hpast

end Apply

/-! ## Runs -/

theorem good_act [DecidableEq P] (h : ∀ c, Good s c) (a : Act C P) (c : C) : Good (s.act a) c := by
  cases a with
  | start x entrance requested_at wait_boundary =>
    simp only [Sys.act]
    split
    · next hout =>
      by_cases hx : c = x
      · subst hx
        have hfree : s.lock ≠ some c := fun hlock => by
          rw [← (h c).lock, locked_of_isOut hout] at hlock
          cases hlock
        refine ⟨?_, ?_, ?_, ?_⟩ <;> simp only [update_self] <;> cases entrance
        · exact ⟨nofun, fun hlock => absurd hlock hfree⟩
        · exact ⟨nofun, fun hlock => absurd hlock hfree⟩
        · exact nofun
        · exact nofun
        · exact nofun
        · exact nofun
        · exact trivial
        · exact trivial
      · have hc := h c
        refine ⟨?_, ?_, ?_, ?_⟩ <;> simp only [update_of_ne hx]
        · exact hc.lock
        · exact hc.named
        · exact hc.free
        · exact hc.quiet
    · exact h c
  | step x input =>
    simp only [Sys.act]
    split
    · exact h c
    · next o ho =>
      by_cases hx : c = x
      · subst hx
        exact good_self (h c) (advance_spec ho)
      · exact good_other hx (h x) (h c) (advance_spec ho)
  | kill x =>
    simp only [Sys.act]
    have hc := h c
    by_cases hx : c = x
    · subst hx
      refine ⟨?_, ?_, ?_, ?_⟩ <;> simp only [update_self, Proc.at]
      · refine ⟨nofun, fun hlock => ?_⟩
        split at hlock
        · cases hlock
        · next hne => exact absurd hlock hne
      · exact nofun
      · exact nofun
      · exact trivial
    · refine ⟨?_, ?_, ?_, ?_⟩ <;> simp only [update_of_ne hx]
      · rw [hc.lock]
        split
        · next hlock => simp [hlock, Ne.symm hx]
        · exact Iff.rfl
      · exact hc.named
      · exact hc.free
      · exact hc.quiet
  | release w =>
    simp only [Sys.act]
    split
    · next hfree =>
      have hc := h c
      have hnot : (s.procs c).loc.locked = false := by
        rw [Bool.eq_false_iff, ne_eq, hc.lock, hfree.1]
        exact nofun
      refine ⟨hc.lock, fun hin => ?_, fun hcleared => ?_, hc.quiet⟩
      · cases (locked_of_inSlot hin).symm.trans hnot
      · cases (locked_of_cleared hcleared).symm.trans hnot
    · exact h c

theorem inTurn_act [DecidableEq P] (h : ∀ c, InTurn s c) {a : Act C P} (hfair : ¬ Overtakes s a) (c : C) :
    InTurn (s.act a) c := by
  cases a with
  | start x entrance requested_at wait_boundary =>
    simp only [Sys.act]
    split
    · intro y hy hpast
      by_cases hx : c = x
      · subst hx
        simp only [update_self] at hpast
        cases entrance <;> cases hpast
      · simp only [update_of_ne hx] at hpast ⊢
        exact h c y hy hpast
    · exact h c
  | step x input =>
    simp only [Sys.act]
    split
    · exact h c
    · next o ho =>
      exact inTurn_apply h (advance_spec ho) (fun hloc c' hne hpast hlt => hfair ⟨hloc, c', hne, hpast, hlt⟩) c
  | kill x =>
    simp only [Sys.act]
    intro y hy hpast
    by_cases hx : c = x
    · subst hx
      simp only [update_self, Proc.at] at hpast
      cases hpast
    · simp only [update_of_ne hx] at hpast ⊢
      exact h c y hy hpast
  | release w =>
    simp only [Sys.act]
    split
    · exact h c
    · exact h c

/-- One corner is inside at a time and the registry names it; the owner that is taken over was not observed as busy; nobody
with an earlier request waits when a corner enters; and no run has ended with its entry waiting or running. -/
structure Safe (s : Sys C P) : Prop where
  exclusive : ∀ c c', (s.procs c).loc.inSlot = true → (s.procs c').loc.inSlot = true → c = c'
  named : ∀ c, (s.procs c).loc.inSlot = true → s.registry = .owner (.corner c)
  free : ∀ c, (s.procs c).loc = .register → ∀ w, s.registry = .owner w → w ≠ .corner c →
    (s.procs c).observed = some (w, false)
  fifo : ∀ c, (s.procs c).loc = .register ∨ (s.procs c).loc = .running → ∀ x, x ≠ c →
    ((s.entry x).getD .missing).isEarlier (s.procs c).requested_at = false
  settled : ∀ c, (s.procs c).loc = .ended → (s.status c).isSettled = true

theorem safe_of_good (h : ∀ c, Good s c) (hturn : ∀ c, InTurn s c) : Safe s where
  exclusive c c' hc hc' := by
    have hlock := (h c).lock.mp (locked_of_inSlot hc)
    have hlock' := (h c').lock.mp (locked_of_inSlot hc')
    exact some.inj (hlock.symm.trans hlock')
  named c := (h c).named
  free c hc := (h c).free (by rw [hc]; rfl)
  fifo c hc x hx := hturn c x hx (by rcases hc with hc | hc <;> rw [hc] <;> trivial)
  settled c hc := by
    have hquiet := (h c).quiet
    rw [hc] at hquiet
    exact hquiet

theorem good_initial (h : s.Initial) (c : C) : Good s c := by
  obtain ⟨hlock, hidle⟩ := h
  refine ⟨?_, ?_, ?_, ?_⟩ <;> rw [hidle c]
  · rw [hlock]
    exact ⟨nofun, nofun⟩
  · exact nofun
  · exact nofun
  · exact trivial

theorem inTurn_initial (h : s.Initial) (c : C) : InTurn s c := by
  intro x _ hpast
  rw [h.2 c] at hpast
  cases hpast

/-- All but the order of the queue holds in every run. -/
theorem good_run [DecidableEq P] (h : ∀ c, Good s c) (acts : List (Act C P)) (c : C) :
    Good (acts.foldl Sys.act s) c := by
  induction acts generalizing s with
  | nil => exact h c
  | cons a acts ih => exact ih fun c => good_act h a c

instance [Fintype C] (s : Sys C P) (a : Act C P) : Decidable (Overtakes s a) :=
  match a with
  | .step x _ => inferInstanceAs (Decidable ((s.procs x).loc = .enqueue ∧
      ∃ c, c ≠ x ∧ (s.procs c).loc.Past x ∧ (s.procs x).requested_at < (s.procs c).requested_at))
  | .start .. | .kill _ | .release _ => isFalse id

/-- No queue file, no registry, and two corners. -/
def two : Sys Bool Unit := ⟨[], .absent, none, fun _ => .none⟩

/-- A corner with a request at 5 up to the status that it writes before it enters. -/
def taking : List (Act Bool Unit) :=
  [.start false ._program_slot 5 false, .step false .proceed, .step false (.answer true), .step false .proceed,
    .step false .proceed, .step false .proceed, .step false .proceed, .step false .proceed]

def taken : List (Act Bool Unit) := taking ++ [.step false .proceed]

/-- Another corner queues with a request at 1 in the meantime. -/
def overtaken : List (Act Bool Unit) :=
  taking ++ [.start true ._program_slot 1 false, .step true .proceed, .step false .proceed]

end Docich.ProgramSlot
