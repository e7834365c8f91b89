import Docich.Predictions.Ledger

/-!
# When the boards do not depend on the order

- `Tallied`: the totals are one summary for each viewer, in the order of the first rows (`tallied_totals`);
- `board_congr`: the same rounds in two orders give one board when names and ties do not depend on the order;
- `Steady`: the rows for which nothing depends on the order;
- `independent_iff`: the ledgers, the boards and the answers depend on the rows alone exactly for steady rows.
-/

namespace Docich.Predictions

open List Option Ranked Entry

open Ranked (sortBy greatest above elements pair_or_pair not_pair_pair)
open Wire (Json Dict isFalsy)

/-! ## Totals -/

/-- A row of a round, with the status of the round. -/
abbrev Row := Status × Predictor

def users (rows : List Row) : List Text := rows.map fun r => r.2.user_id

def ofUser (user : Text) (rows : List Row) : List Row := rows.filter fun r => r.2.user_id = user

def summary (user : Text) (rows : List Row) : Entry := (ofUser user rows).foldl Entry.add (Entry.new user)

theorem ofUser_append (user : Text) (rows rows' : List Row) : ofUser user (rows ++ rows') = ofUser user rows ++ ofUser user rows' :=
  filter_append _ _

theorem summary_snoc (user : Text) (rows : List Row) (row : Row) :
    summary user (rows ++ [row]) = if row.2.user_id = user then (summary user rows).add row else summary user rows := by
  rw [summary, ofUser_append, foldl_append, ← summary]
  by_cases h : row.2.user_id = user <;> simp [ofUser, h]

@[simp] theorem user_id_add (e : Entry) (row : Row) : (e.add row).user_id = e.user_id := rfl

@[simp] theorem user_id_summary (user : Text) (rows : List Row) : (summary user rows).user_id = user := by
  induction rows using List.reverseRecOn with
  | nil => rfl
  | append_singleton rows row ih =>
    rw [summary_snoc]
    split
    · rw [user_id_add, ih]
    · exact ih

/-- One summary for each viewer, in the order of the first rows. -/
structure Tallied (rows : List Row) (entries : List Entry) : Prop where
  nodup : (entries.map user_id).Nodup
  mem : ∀ user, user ∈ entries.map user_id ↔ user ∈ users rows
  summary : ∀ e ∈ entries, e = summary e.user_id rows
  order : ∀ user user', [user, user'].Sublist (entries.map user_id) →
    (users rows).idxOf user < (users rows).idxOf user'

variable {entries : List Entry} {M : Type} {user user' : Text} {statuses : Status → Bool}
    {name : Text × Text} {round : Round} {rows rows' : List Row}

theorem tallied_snoc (h : Tallied rows entries) (row : Row) :
    Tallied (rows ++ [row]) (addRow entries row) := by
  have husers : users (rows ++ [row]) = users rows ++ [row.2.user_id] := by simp [users]
  unfold addRow
  split
  · next hin =>
    have hids : (entries.map fun e => if e.user_id = row.2.user_id then e.add row else e).map user_id =
        entries.map user_id := by
      rw [List.map_map]
      refine List.map_congr_left fun e _ => ?_
      simp only [Function.comp_apply]
      split <;> rfl
    rw [h.mem] at hin
    refine ⟨?_, ?_, ?_, ?_⟩
    · rw [hids]
      exact h.nodup
    · intro user
      rw [hids, h.mem, husers, List.mem_append, List.mem_singleton]
      constructor
      · exact .inl
      · rintro (hu | rfl)
        · exact hu
        · exact hin
    · intro e' he'
      obtain ⟨e, he, rfl⟩ := List.mem_map.mp he'
      have hsum := h.summary e he
      by_cases hu : e.user_id = row.2.user_id
      · rw [if_pos hu, user_id_add, summary_snoc, if_pos hu.symm, ← hsum]
      · rw [if_neg hu, summary_snoc, if_neg (Ne.symm hu), ← hsum]
    · intro user user' hsub
      rw [hids] at hsub
      have hu : user ∈ users rows := (h.mem user).mp (hsub.subset List.mem_cons_self)
      have hu' : user' ∈ users rows := (h.mem user').mp (hsub.subset (List.mem_cons_of_mem _ List.mem_cons_self))
      rw [husers, List.idxOf_append_of_mem hu, List.idxOf_append_of_mem hu']
      exact h.order user user' hsub
  · next hnew =>
    have hids : (entries ++ [(Entry.new row.2.user_id).add row]).map user_id =
        entries.map user_id ++ [row.2.user_id] := by
      rw [List.map_append]
      rfl
    have hnot : row.2.user_id ∉ users rows := fun hm => hnew ((h.mem _).mpr hm)
    refine ⟨?_, ?_, ?_, ?_⟩
    · rw [hids, List.nodup_append]
      refine ⟨h.nodup, by simp, fun a ha b hb => ?_⟩
      rw [List.mem_singleton.mp hb]
      rintro rfl
      exact hnew ha
    · intro user
      rw [hids, List.mem_append, h.mem, husers, List.mem_append]
    · intro e he
      rcases List.mem_append.mp he with he | he
      · have hu : e.user_id ≠ row.2.user_id := fun hu => hnew (hu ▸ List.mem_map.mpr ⟨e, he, rfl⟩)
        rw [summary_snoc, if_neg (Ne.symm hu)]
        exact h.summary e he
      · have hnone : ofUser row.2.user_id rows = [] := by
          rw [ofUser, List.filter_eq_nil_iff]
          intro r hr hu
          exact hnot (List.mem_map.mpr ⟨r, hr, of_decide_eq_true hu⟩)
        rw [List.mem_singleton.mp he, user_id_add, summary_snoc]
        rw [show (Entry.new row.2.user_id).user_id = row.2.user_id from rfl, if_pos rfl, summary, hnone]
        rfl
    · intro user user' hsub
      rw [hids] at hsub
      obtain ⟨l₁, l₂, heq, h₁, h₂⟩ := List.sublist_append_iff.mp hsub
      match l₁, heq with
      | [], heq =>
        rw [List.nil_append] at heq
        rw [← heq] at h₂
        exact absurd h₂.length_le (by simp)
      | [_], heq =>
        cases heq
        have hu : user ∈ users rows := (h.mem user).mp (h₁.subset List.mem_cons_self)
        have hlast : user' = row.2.user_id := List.mem_singleton.mp (h₂.subset List.mem_cons_self)
        rw [husers, List.idxOf_append_of_mem hu, hlast, List.idxOf_append_of_notMem hnot]
        have := List.idxOf_lt_length_of_mem hu
        omega
      | [_, _], heq =>
        cases heq
        have hu : user ∈ users rows := (h.mem user).mp (h₁.subset List.mem_cons_self)
        have hu' : user' ∈ users rows := (h.mem user').mp (h₁.subset (List.mem_cons_of_mem _ List.mem_cons_self))
        rw [husers, List.idxOf_append_of_mem hu, List.idxOf_append_of_mem hu']
        exact h.order user user' h₁
      | _ :: _ :: _ :: _, heq => simp at heq

theorem tallied_rows (rows : List Row) : Tallied rows (rows.foldl addRow []) := by
  induction rows using List.reverseRecOn with
  | nil => exact ⟨nodup_nil, fun _ => Iff.rfl, nofun, fun _ _ h => absurd h (by simp)⟩
  | append_singleton rows row ih =>
    rw [foldl_append]
    exact tallied_snoc ih row

theorem tallied_totals (statuses : Status → Bool) (rounds : List Round) :
    Tallied (rowsOf statuses rounds) (totals statuses rounds) := tallied_rows _

theorem Tallied.nodup_entries (h : Tallied rows entries) : entries.Nodup :=
  Nodup.of_map _ h.nodup

/-! ## Summaries -/

theorem foldl_sum [AddCommMonoid M] (f : Entry → M) (g : Row → M) (h : ∀ e row, f (e.add row) = f e + g row)
    (rows : List Row) (e : Entry) : f (rows.foldl Entry.add e) = f e + (rows.map g).sum := by
  induction rows generalizing e with
  | nil => simp
  | cons row rows ih => rw [foldl_cons, ih, h, map_cons, sum_cons, add_assoc]

theorem sum_congr [AddCommMonoid M] (f : Entry → M) (g : Row → M) (h : ∀ e row, f (e.add row) = f e + g row)
    (hperm : rows.Perm rows') (e : Entry) :
    f (rows.foldl Entry.add e) = f (rows'.foldl Entry.add e) := by
  rw [foldl_sum f g h, foldl_sum f g h, (hperm.map g).sum_eq]

/-- The login and the name of the last row of a viewer. -/
def lastName (user : Text) (rows : List Row) : Option (Text × Text) :=
  (ofUser user rows).getLast?.map fun r => (r.2.user_login, r.2.user_name)

theorem names_summary (user : Text) (rows : List Row) :
    ((summary user rows).user_login, (summary user rows).user_name) = (lastName user rows).getD ([], []) := by
  unfold lastName
  rw [summary]
  generalize ofUser user rows = l
  induction l using List.reverseRecOn with
  | nil => rfl
  | append_singleton l row ih =>
    rw [foldl_append, List.getLast?_append]
    rfl

/-- The rows of a viewer in another order, the last of them with the same name, add up to the same. -/
theorem summary_congr (hperm : rows.Perm rows')
    (hname : lastName user rows = lastName user rows') : summary user rows = summary user rows' := by
  have huser : (ofUser user rows).Perm (ofUser user rows') := hperm.filter _
  have hnames := names_summary user rows
  rw [hname, ← names_summary user rows', Prod.mk.injEq] at hnames
  refine Entry.ext (by simp) hnames.1 hnames.2 ?_ ?_ ?_ ?_ ?_ ?_ ?_
  · exact sum_congr Entry.rounds (fun r => if r.1 = .RESOLVED then 1 else 0) (fun _ _ => rfl) huser _
  · exact sum_congr Entry.participations (fun _ => 1) (fun _ _ => rfl) huser _
  · exact sum_congr Entry.hits (fun r => if r.1 = .RESOLVED ∧ r.2.hit = some true then 1 else 0) (fun _ _ => rfl) huser _
  · exact sum_congr Entry.used (fun r => r.2.used) (fun _ _ => rfl) huser _
  · exact sum_congr Entry.won (fun r => r.2.won) (fun _ _ => rfl) huser _
  · exact sum_congr Entry.lost
      (fun r => if r.1 = .RESOLVED ∧ r.2.hit ≠ some true then (r.2.used : ℤ) - r.2.refunded else 0) (fun _ _ => rfl) huser _
  · exact sum_congr Entry.refunded (fun r => r.2.refunded) (fun _ _ => rfl) huser _

/-! ## Rounds in another order -/

/-- The login and the name that a round leaves to a viewer. -/
def nameIn (user : Text) (round : Round) : Option (Text × Text) := lastName user (round.predictors.map (round.status, ·))

/-- A round lists a viewer, and no earlier row of it lists the other. -/
def Ahead (round : Round) (user user' : Text) : Prop :=
  (round.predictors.map Predictor.user_id).idxOf user < (round.predictors.map Predictor.user_id).idxOf user'

instance (round : Round) (user user' : Text) : Decidable (Ahead round user user') := inferInstanceAs (Decidable (_ < _))

theorem rowsOf_cons (statuses : Status → Bool) (round : Round) (rounds : List Round) :
    rowsOf statuses (round :: rounds) =
      (if statuses round.status then round.predictors.map (round.status, ·) else []) ++ rowsOf statuses rounds := rfl

theorem rowsOf_append (statuses : Status → Bool) (l l' : List Round) :
    rowsOf statuses (l ++ l') = rowsOf statuses l ++ rowsOf statuses l' := flatMap_append

theorem lastName_append (user : Text) (rows rows' : List Row) :
    lastName user (rows ++ rows') = (lastName user rows').or (lastName user rows) := by
  rw [lastName, ofUser_append, List.getLast?_append, map_or]
  rfl

/-- The last row of a viewer is the last one of some round. -/
theorem lastName_rowsOf {rounds : List Round}
    (h : lastName user (rowsOf statuses rounds) = some name) : ∃ round ∈ rounds, nameIn user round = some name := by
  induction rounds with
  | nil => cases h
  | cons round rounds ih =>
    rw [rowsOf_cons, lastName_append] at h
    cases hrest : lastName user (rowsOf statuses rounds) with
    | some name' =>
      rw [hrest, some_or] at h
      obtain ⟨round', hmem, hname⟩ := ih (hrest.trans h)
      exact ⟨round', mem_cons_of_mem _ hmem, hname⟩
    | none =>
      rw [hrest, none_or] at h
      split at h
      · exact ⟨round, mem_cons_self, h⟩
      · cases h

/-- Who comes first among all rows comes first in some round. -/
theorem ahead_of_idxOf {rounds : List Round}
    (h : (users (rowsOf statuses rounds)).idxOf user < (users (rowsOf statuses rounds)).idxOf user') :
    ∃ round ∈ rounds, statuses round.status = true ∧ Ahead round user user' := by
  induction rounds with
  | nil => cases h
  | cons round rounds ih =>
    rw [rowsOf_cons] at h
    by_cases hstatus : statuses round.status = true
    · have husers : users (round.predictors.map (round.status, ·)) = round.predictors.map Predictor.user_id := by
        simp [users]
      rw [if_pos hstatus, users, map_append, ← users, ← users, husers] at h
      by_cases hu : user ∈ round.predictors.map Predictor.user_id
      · refine ⟨round, mem_cons_self, hstatus, ?_⟩
        rw [idxOf_append_of_mem hu] at h
        unfold Ahead
        by_cases hu' : user' ∈ round.predictors.map Predictor.user_id
        · rwa [idxOf_append_of_mem hu'] at h
        · rw [idxOf_eq_length hu']
          exact idxOf_lt_length_of_mem hu
      · rw [idxOf_append_of_notMem hu] at h
        by_cases hu' : user' ∈ round.predictors.map Predictor.user_id
        · rw [idxOf_append_of_mem hu'] at h
          have := idxOf_lt_length_of_mem hu'
          omega
        · rw [idxOf_append_of_notMem hu'] at h
          obtain ⟨round', hmem, hrest⟩ := ih (by omega)
          exact ⟨round', mem_cons_of_mem _ hmem, hrest⟩
    · rw [if_neg hstatus, nil_append] at h
      obtain ⟨round', hmem, hrest⟩ := ih h
      exact ⟨round', mem_cons_of_mem _ hmem, hrest⟩

/-- The first round decides who comes first. -/
theorem idxOf_of_ahead {rounds : List Round}
    (hstatus : statuses round.status = true) (h : Ahead round user user') :
    (users (rowsOf statuses (round :: rounds))).idxOf user < (users (rowsOf statuses (round :: rounds))).idxOf user' := by
  have husers : users (round.predictors.map (round.status, ·)) = round.predictors.map Predictor.user_id := by simp [users]
  have hu : user ∈ round.predictors.map Predictor.user_id := by
    by_contra hnot
    unfold Ahead at h
    rw [idxOf_eq_length hnot] at h
    have := idxOf_le_length (l := round.predictors.map Predictor.user_id) (a := user')
    omega
  rw [rowsOf_cons, if_pos hstatus, users, map_append, ← users, ← users, husers, idxOf_append_of_mem hu]
  by_cases hu' : user' ∈ round.predictors.map Predictor.user_id
  · rwa [idxOf_append_of_mem hu']
  · rw [idxOf_append_of_notMem hu']
    have := idxOf_lt_length_of_mem hu
    omega

/-- Each viewer has the same login and name in every round. -/
def SameNames (rounds : List Round) : Prop :=
  ∀ round ∈ rounds, ∀ round' ∈ rounds, ∀ user name name',
    nameIn user round = some name → nameIn user round' = some name' → name = name'

/-- Viewers that tie on a board come in one order in every round. -/
def SameTies (statuses : Status → Bool) (metric : Metric) (rounds : List Round) : Prop :=
  ∀ e ∈ totals statuses rounds, ∀ e' ∈ totals statuses rounds, listed metric 1 e → listed metric 1 e' →
    sortKey metric e = sortKey metric e' → ∀ round ∈ rounds, ∀ round' ∈ rounds,
      statuses round.status → statuses round'.status → Ahead round e.user_id e'.user_id → ¬ Ahead round' e'.user_id e.user_id

section Rounds

variable {statuses : Status → Bool} {metric : Metric} {rounds rounds' : List Round}

theorem rowsOf_perm (hperm : rounds.Perm rounds') : (rowsOf statuses rounds).Perm (rowsOf statuses rounds') :=
  hperm.flatMap_right _

theorem lastName_congr (hnames : SameNames rounds) (hperm : rounds.Perm rounds') (user : Text) :
    lastName user (rowsOf statuses rounds) = lastName user (rowsOf statuses rounds') := by
  have huser : (ofUser user (rowsOf statuses rounds)).Perm (ofUser user (rowsOf statuses rounds')) :=
    (rowsOf_perm hperm).filter _
  cases h : lastName user (rowsOf statuses rounds) with
  | none =>
    rw [lastName, map_eq_none_iff, List.getLast?_eq_none_iff] at h
    rw [h] at huser
    rw [lastName, huser.symm.eq_nil]
    rfl
  | some name =>
    cases h' : lastName user (rowsOf statuses rounds') with
    | none =>
      rw [lastName, map_eq_none_iff, List.getLast?_eq_none_iff] at h'
      rw [h'] at huser
      rw [lastName, huser.eq_nil] at h
      cases h
    | some name' =>
      obtain ⟨round, hmem, hname⟩ := lastName_rowsOf h
      obtain ⟨round', hmem', hname'⟩ := lastName_rowsOf h'
      rw [hnames round hmem round' (hperm.mem_iff.mpr hmem') user name name' hname hname']

theorem mem_totals {e : Entry} : e ∈ totals statuses rounds ↔
    e.user_id ∈ users (rowsOf statuses rounds) ∧ e = summary e.user_id (rowsOf statuses rounds) := by
  have h := tallied_totals statuses rounds
  constructor
  · exact fun he => ⟨(h.mem _).mp (mem_map.mpr ⟨e, he, rfl⟩), h.summary e he⟩
  · rintro ⟨hu, he⟩
    obtain ⟨e', he', hid⟩ := mem_map.mp ((h.mem _).mpr hu)
    rw [he, ← hid, ← h.summary e' he']
    exact he'

theorem totals_perm (hnames : SameNames rounds) (hperm : rounds.Perm rounds') :
    (totals statuses rounds).Perm (totals statuses rounds') := by
  rw [perm_ext_iff_of_nodup (tallied_totals statuses rounds).nodup_entries
    (tallied_totals statuses rounds').nodup_entries]
  intro e
  have hrows : (rowsOf statuses rounds).Perm (rowsOf statuses rounds') := rowsOf_perm hperm
  rw [mem_totals, mem_totals, summary_congr hrows (lastName_congr hnames hperm _)]
  exact and_congr_left fun _ => (hrows.map _).mem_iff

theorem listed_one {minimum : ℕ} {e : Entry} (hmin : 1 ≤ minimum) (h : listed metric minimum e = true) :
    listed metric 1 e = true := by
  cases metric <;> simp only [listed, Bool.and_eq_true, decide_eq_true_eq] at h ⊢ <;> omega

/-- The order of two viewers among the totals is their order in some round. -/
theorem ahead_of_totals {e e' : Entry} (h : [e, e'].Sublist (totals statuses rounds)) :
    ∃ round ∈ rounds, statuses round.status = true ∧ Ahead round e.user_id e'.user_id :=
  ahead_of_idxOf ((tallied_totals statuses rounds).order _ _ (h.map user_id))

/-- **Boards.** The same rounds in two orders give one board. -/
theorem board_congr (hnames : SameNames rounds) (hties : SameTies statuses metric rounds) (hperm : rounds.Perm rounds')
    {minimum : ℕ} (hmin : 1 ≤ minimum) (limit : ℕ) :
    board statuses metric minimum limit rounds = board statuses metric minimum limit rounds' := by
  have htotals : (totals statuses rounds).Perm (totals statuses rounds') := totals_perm hnames hperm
  have hnodup := (tallied_totals statuses rounds).nodup_entries
  unfold board
  rw [sortBy_congr (hnodup.filter _) (htotals.filter _)]
  intro a b htie hab hba
  have ha := mem_filter.mp (hab.subset mem_cons_self)
  have hb := mem_filter.mp (hab.subset (mem_cons_of_mem _ mem_cons_self))
  obtain ⟨round, hr, hstatus, hahead⟩ := ahead_of_totals (hab.trans filter_sublist)
  obtain ⟨round', hr', hstatus', hahead'⟩ := ahead_of_totals (hba.trans filter_sublist)
  exact hties a ha.1 b hb.1 (listed_one hmin ha.2) (listed_one hmin hb.2) htie round hr round' (hperm.mem_iff.mpr hr')
    hstatus hstatus' hahead hahead'

end Rounds

/-! ## Ledgers of the same rows -/

section Ledgers

variable {str : Json → Text} {fits : Ledger → Bool} {rows : List Json} {ops : List Op}

variable (hvalid : Valid str rows)

include hvalid in
theorem keys_nodup : ((rounds str rows).map key).Nodup := by
  have hids : (((rounds str rows).map key).map fun k => (ofLex k).2).Nodup := by
    rw [List.map_map]
    exact hvalid.ids
  exact List.Nodup.of_map _ hids

theorem elements_delivered (hops : Delivers str rows ops) :
    elements (ops.filterMap (keyOf str)) = elements ((rounds str rows).map key) := by
  ext k
  rw [mem_elements, mem_elements, mem_filterMap]
  constructor
  · rintro ⟨op, hop, hk⟩
    cases op with
    | record remote corner now cancel_reason =>
      obtain ⟨round, hround, rfl⟩ := map_eq_some_iff.mp hk
      exact mem_map.mpr ⟨round, mem_filterMap.mpr ⟨remote, (hops.only _ hop).1, hround⟩, rfl⟩
    | reload => cases hk
  · intro hk
    obtain ⟨round, hround, rfl⟩ := mem_map.mp hk
    obtain ⟨row, hrow, hsettled⟩ := mem_filterMap.mp hround
    obtain ⟨corner, now, cancel_reason, hop⟩ := hops.all row hrow
    exact ⟨_, hop, by simp [keyOf, hsettled]⟩

include hvalid

theorem mem_roundsOf {ledger : Ledger} (h : Sound str rows ops ledger) {round : Round}
    (hround : round ∈ rounds str rows) : round ∈ roundsOf ledger ↔ key round ∈ keys ledger := by
  constructor
  · intro hmem
    obtain ⟨r, hr, rfl⟩ := mem_map.mp hmem
    exact mem_map.mpr ⟨r, hr, rfl⟩
  · intro hmem
    obtain ⟨r, hr, hkey⟩ := mem_map.mp hmem
    have hid : r.round.id = round.id := congrArg (fun k => (ofLex k).2) hkey
    rw [← key_inj hvalid (h.known r hr) hround hid]
    exact mem_map.mpr ⟨r, hr, rfl⟩

/-- The ledger has the rounds with fewer than `MAX_ROUNDS` greater ones. -/
theorem mem_after (hops : Delivers str rows ops) (round : Round) :
    round ∈ roundsOf (after str fits ops) ↔
      round ∈ rounds str rows ∧ ((rounds str rows).filter fun r => key round < key r).length < MAX_ROUNDS := by
  have h : Sound str rows ops (after str fits ops) := sound_after hvalid hops.only
  have hcount : (Ranked.above (elements ((rounds str rows).map key)) (key round)).card =
      ((rounds str rows).filter fun r => key round < key r).length := by
    rw [card_above (keys_nodup hvalid), List.filter_map, List.length_map]
    rfl
  have hkept : key round ∈ keys (after str fits ops) ↔ key round ∈ (rounds str rows).map key ∧
      ((rounds str rows).filter fun r => key round < key r).length < MAX_ROUNDS := by
    rw [← mem_elements, h.kept, elements_delivered hops, mem_greatest, mem_elements, hcount]
  constructor
  · intro hmem
    obtain ⟨r, hr, heq⟩ := List.mem_map.mp hmem
    have hround : round ∈ rounds str rows := heq ▸ h.known r hr
    exact ⟨hround, (hkept.mp ((mem_roundsOf hvalid h hround).mp hmem)).2⟩
  · rintro ⟨hround, hlt⟩
    exact (mem_roundsOf hvalid h hround).mpr (hkept.mpr ⟨List.mem_map.mpr ⟨round, hround, rfl⟩, hlt⟩)

theorem roundsOf_nodup (hops : ∀ op ∈ ops, Delivery str rows op) :
    (roundsOf (after str fits ops)).Nodup := by
  have h : Sound str rows ops (after str fits ops) := sound_after hvalid hops
  have hids : ((roundsOf (after str fits ops)).map Round.id).Nodup := by
    rw [roundsOf, List.map_map]
    exact h.nodup
  exact List.Nodup.of_map _ hids

theorem length_rounds : (rounds str rows).length = rows.length := by
  have hsome := hvalid.settled
  unfold rounds
  clear hvalid
  induction rows with
  | nil => rfl
  | cons row rows ih =>
    obtain ⟨round, hround⟩ := isSome_iff_exists.mp (hsome row mem_cons_self)
    rw [filterMap_cons_some hround, length_cons, length_cons,
      ih fun row' hrow' => hsome row' (mem_cons_of_mem _ hrow')]

/-- Few rows are all kept. -/
theorem roundsOf_perm (hfew : rows.length ≤ MAX_ROUNDS) (hops : Delivers str rows ops) :
    (rounds str rows).Perm (roundsOf (after str fits ops)) := by
  have hnodup : (rounds str rows).Nodup := Nodup.of_map _ hvalid.ids
  rw [perm_ext_iff_of_nodup hnodup (roundsOf_nodup hvalid hops.only)]
  intro round
  rw [mem_after hvalid hops]
  refine ⟨fun hround => ⟨hround, ?_⟩, fun h => h.1⟩
  have hlt : ((rounds str rows).filter fun r => key round < key r).length < (rounds str rows).length :=
    length_filter_lt_length_iff_exists.mpr ⟨round, hround, by simp⟩
  rw [length_rounds hvalid] at hlt
  omega

/-- A delivery of a round that is not there. -/
theorem record_new (hfew : rows.length ≤ MAX_ROUNDS) {ledger : Ledger} {round : Round} {r : Recorded}
    (h : Sound str rows ops ledger) (hround : round ∈ rounds str rows) (hr : r.round = round)
    (hnew : ¬ ∃ r ∈ ledger, r.round.id = round.id) : prune (ledger ++ [r]) = ledger ++ [r] := by
  have hnodup : (roundsOf (ledger ++ [r])).Nodup := by
    have hids : ((roundsOf (ledger ++ [r])).map Round.id).Nodup := by
      rw [roundsOf, List.map_map, List.map_append, List.nodup_append]
      refine ⟨h.nodup, by simp, fun a ha b hb hab => ?_⟩
      obtain ⟨r', hr', rfl⟩ := List.mem_map.mp ha
      simp only [List.map_cons, List.map_nil, List.mem_singleton, Function.comp_apply, hr] at hb
      exact hnew ⟨r', hr', hab.trans hb⟩
    exact List.Nodup.of_map _ hids
  have hsub : roundsOf (ledger ++ [r]) ⊆ rounds str rows := by
    intro x hx
    obtain ⟨r', hr', rfl⟩ := List.mem_map.mp hx
    rcases List.mem_append.mp hr' with hr' | hr'
    · exact h.known r' hr'
    · rw [List.mem_singleton.mp hr', hr]
      exact hround
  have hlength := (hnodup.subperm hsub).length_le
  rw [roundsOf, List.length_map, length_rounds hvalid] at hlength
  unfold prune
  rw [if_pos (hlength.trans hfew)]

end Ledgers

/-! ## The rows for which nothing depends on the order -/

structure Steady (str : Json → Text) (rows : List Json) : Prop where
  few : rows.length ≤ MAX_ROUNDS
  names : SameNames (rounds str rows)
  boards : ∀ metric, SameTies everyStatus metric (rounds str rows)
  ranking : SameTies gradedStatus .hit_rate (rounds str rows)

/-- The ledgers, the boards and the answers depend on the rows alone. -/
structure Independent (str : Json → Text) (fits : Ledger → Bool) (rows : List Json) : Prop where
  rounds : ∀ ops, Delivers str rows ops → (roundsOf (after str fits ops)).Nodup ∧
    ∀ round, round ∈ roundsOf (after str fits ops) ↔
      round ∈ rounds str rows ∧ ((rounds str rows).filter fun r => key round < key r).length < MAX_ROUNDS
  boards : ∀ ops ops', Delivers str rows ops → Delivers str rows ops' → ∀ min_rounds min_participations limit,
    boards (after str fits ops) min_rounds min_participations limit =
      boards (after str fits ops') min_rounds min_participations limit
  ranking : ∀ ops ops', Delivers str rows ops → Delivers str rows ops' → ∀ min_rounds limit,
    ranking (after str fits ops) min_rounds limit = ranking (after str fits ops') min_rounds limit
  answers : ∀ ops, Delivers str rows ops → ∀ pre remote corner now cancel_reason post,
    ops = pre ++ .record remote corner now cancel_reason :: post → ∀ round, settled str remote = some round →
      ∀ answer ledger, record str (after str fits pre) remote corner now cancel_reason = .ok (answer, ledger) →
        (answer = true ↔ (¬ ∃ r ∈ after str fits pre, r.round.id = round.id) ∧ ∃ r ∈ ledger, r.round.id = round.id)

section Steady

variable {str : Json → Text} {fits : Ledger → Bool} {rows : List Json}

theorem boards_eq {ledger : Ledger} (h : checkLedger ledger = true) (min_rounds min_participations limit : ℤ) :
    boards ledger min_rounds min_participations limit =
      if 1 ≤ min_rounds ∧ 1 ≤ min_participations ∧ 1 ≤ limit then
        .ok (METRICS.map fun metric =>
          (metric, board everyStatus metric (if metric = .hit_rate then min_rounds else min_participations).toNat limit.toNat
            (roundsOf ledger)))
      else .error .bound := by
  unfold boards
  rw [check_true h]
  by_cases hbound : 1 ≤ min_rounds ∧ 1 ≤ min_participations ∧ 1 ≤ limit
  · rw [if_pos hbound, check_true (by simp [hbound])]
    rfl
  · rw [if_neg hbound]
    have hfalse : (1 ≤ min_rounds && 1 ≤ min_participations && 1 ≤ limit : Bool) = false := by
      rw [Bool.eq_false_iff]
      intro htrue
      simp only [Bool.and_eq_true, decide_eq_true_eq] at htrue
      exact hbound ⟨htrue.1.1, htrue.1.2, htrue.2⟩
    rw [hfalse]
    rfl

theorem ranking_eq {ledger : Ledger} (h : checkLedger ledger = true) (min_rounds limit : ℤ) :
    ranking ledger min_rounds limit =
      if 1 ≤ min_rounds ∧ 1 ≤ limit then .ok (board gradedStatus .hit_rate min_rounds.toNat limit.toNat (roundsOf ledger))
      else .error .bound := by
  unfold ranking
  rw [check_true h]
  by_cases hbound : 1 ≤ min_rounds ∧ 1 ≤ limit
  · rw [if_pos hbound, check_true (by simp [hbound])]
    rfl
  · rw [if_neg hbound]
    have hfalse : (1 ≤ min_rounds && 1 ≤ limit : Bool) = false := by
      rw [Bool.eq_false_iff]
      intro htrue
      simp only [Bool.and_eq_true, decide_eq_true_eq] at htrue
      exact hbound htrue
    rw [hfalse]
    rfl

theorem steady_independent (hvalid : Valid str rows) (h : Steady str rows) : Independent str fits rows where
  rounds ops hops := ⟨roundsOf_nodup hvalid hops.only, mem_after hvalid hops⟩
  boards ops ops' hops hops' min_rounds min_participations limit := by
    have hs : Sound str rows ops (after str fits ops) := sound_after hvalid hops.only
    have hs' : Sound str rows ops' (after str fits ops') := sound_after hvalid hops'.only
    rw [boards_eq hs.checked, boards_eq hs'.checked]
    split
    · next hbound =>
      congr 1
      refine map_congr_left fun metric _ => ?_
      have hmin : 1 ≤ (if metric = .hit_rate then min_rounds else min_participations).toNat := by split <;> omega
      rw [← board_congr h.names (h.boards metric) (roundsOf_perm hvalid h.few hops) hmin,
        ← board_congr h.names (h.boards metric) (roundsOf_perm hvalid h.few hops') hmin]
    · rfl
  ranking ops ops' hops hops' min_rounds limit := by
    have hs : Sound str rows ops (after str fits ops) := sound_after hvalid hops.only
    have hs' : Sound str rows ops' (after str fits ops') := sound_after hvalid hops'.only
    rw [ranking_eq hs.checked, ranking_eq hs'.checked]
    split
    · next hbound =>
      have hmin : 1 ≤ min_rounds.toNat := by omega
      rw [← board_congr h.names h.ranking (roundsOf_perm hvalid h.few hops) hmin,
        ← board_congr h.names h.ranking (roundsOf_perm hvalid h.few hops') hmin]
    · rfl
  answers ops hops pre remote corner now cancel_reason post heq round hround answer ledger hrecord := by
    have hpre : ∀ op ∈ pre, Delivery str rows op := fun op hop => hops.only op (heq ▸ mem_append_left _ hop)
    have hs : Sound str rows pre (after str fits pre) := sound_after hvalid hpre
    obtain ⟨hmem, round', r, hround', hr⟩ :=
      hops.only (.record remote corner now cancel_reason) (heq ▸ mem_append_right _ mem_cons_self)
    rw [hround] at hround'
    cases hround'
    rw [record_eq hs hround hr] at hrecord
    have hin : round ∈ Predictions.rounds str rows := mem_filterMap.mpr ⟨remote, hmem, hround⟩
    by_cases hthere : ∃ r ∈ after str fits pre, r.round.id = round.id
    · rw [if_pos hthere] at hrecord
      cases hrecord
      simp [hthere]
    · rw [if_neg hthere, record_new hvalid h.few hs hin (stored_ok hr).1 hthere] at hrecord
      cases hrecord
      refine ⟨fun _ => ⟨hthere, r, by simp, by rw [(stored_ok hr).1]⟩, fun _ => rfl⟩

end Steady

/-! ## Rows that are not steady -/

def deliver (str : Json → Text) (row : Json) : Op :=
  .record row ['c'] none (if (settled str row).map Round.status = some .CANCELED then some noContest else none)

section Necessary

variable {str : Json → Text} {fits : Ledger → Bool} {rows : List Json}

theorem stored_deliver (round : Round) :
    ∃ r, stored round ['c'] none (if round.status = .CANCELED then some noContest else none) = .ok r := by
  cases hs : round.status <;> simp only [stored, hs] <;> exact ⟨_, rfl⟩

variable (hvalid : Valid str rows)

include hvalid

theorem delivery_deliver {row : Json} (hrow : row ∈ rows) : Delivery str rows (deliver str row) := by
  obtain ⟨round, hround⟩ := isSome_iff_exists.mp (hvalid.settled row hrow)
  obtain ⟨r, hr⟩ := stored_deliver round
  refine ⟨hrow, round, r, hround, ?_⟩
  rw [hround]
  simpa using hr

variable {l : List Json} {user : Text} {statuses : Status → Bool} {metric : Metric} {round : Round}
    {name : Text × Text}

theorem delivers_perm (hperm : l.Perm rows) : Delivers str rows (l.map (deliver str)) where
  only op hop := by
    obtain ⟨row, hrow, rfl⟩ := mem_map.mp hop
    exact delivery_deliver hvalid (hperm.mem_iff.mp hrow)
  all row hrow := ⟨_, _, _, mem_map.mpr ⟨row, hperm.mem_iff.mpr hrow, rfl⟩⟩

variable (hfew : rows.length ≤ MAX_ROUNDS)

include hfew in
/-- Few rows stand in the ledger in the order of their calls. -/
theorem roundsOf_deliver (hsub : ∀ row ∈ l, row ∈ rows) (hids : ((rounds str l).map Round.id).Nodup) :
    roundsOf (after str fits (l.map (deliver str))) = rounds str l := by
  induction l using List.reverseRecOn with
  | nil => rfl
  | append_singleton l row ih =>
    have hrow := hsub row (mem_append_right _ (mem_singleton_self row))
    obtain ⟨round, hround⟩ := isSome_iff_exists.mp (hvalid.settled row hrow)
    have hsnoc : rounds str (l ++ [row]) = rounds str l ++ [round] := by simp [rounds, hround]
    rw [hsnoc, map_append, nodup_append] at hids
    have hbefore := ih (fun r hr => hsub r (mem_append_left _ hr)) hids.1
    have hs : Sound str rows (l.map (deliver str)) (after str fits (l.map (deliver str))) := by
      refine sound_after hvalid fun op hop => ?_
      obtain ⟨r, hr, rfl⟩ := mem_map.mp hop
      exact delivery_deliver hvalid (hsub r (mem_append_left _ hr))
    have hnew : ¬ ∃ r ∈ after str fits (l.map (deliver str)), r.round.id = round.id := by
      rintro ⟨r, hr, hid⟩
      have hmem : r.round ∈ rounds str l := hbefore ▸ mem_map.mpr ⟨r, hr, rfl⟩
      exact hids.2.2 _ (mem_map.mpr ⟨r.round, hmem, rfl⟩) _ (mem_singleton_self _) hid
    obtain ⟨r, hr⟩ := stored_deliver round
    have hr' : stored round ['c'] none
        (if (settled str row).map Round.status = some .CANCELED then some noContest else none) = .ok r := by
      rw [hround]
      simpa using hr
    have hin : round ∈ rounds str rows := mem_filterMap.mpr ⟨row, hrow, hround⟩
    rw [map_append, after, foldl_append, ← after, map_cons, map_nil, foldl_cons, foldl_nil,
      hsnoc, ← hbefore]
    simp only [deliver, step]
    rw [record_eq hs hround hr', if_neg hnew, record_new hvalid hfew hs hin (stored_ok hr).1 hnew]
    simp [roundsOf, (stored_ok hr).1]

theorem ids_perm (hperm : l.Perm rows) : ((rounds str l).map Round.id).Nodup :=
  (((hperm.filterMap _).map _).nodup_iff).mpr hvalid.ids

include hfew in
theorem roundsOf_deliver_perm (hperm : l.Perm rows) :
    roundsOf (after str fits (l.map (deliver str))) = rounds str l :=
  roundsOf_deliver hvalid hfew (fun _ h => hperm.mem_iff.mp h) (ids_perm hvalid hperm)

variable (h : Independent str fits rows)

include h in
/-- With too many rows, one that is not kept is answered with True when it is delivered again. -/
theorem independent_few : rows.length ≤ MAX_ROUNDS := by
  by_contra hmany
  have hops := delivers_perm hvalid (Perm.refl rows)
  set ops := rows.map (deliver str) with hopsDef
  have hs : Sound str rows ops (after str fits ops) := sound_after hvalid hops.only
  have hcard : (roundsOf (after str fits ops)).length ≤ MAX_ROUNDS := by
    have hlength : (keys (after str fits ops)).length = (roundsOf (after str fits ops)).length := by simp [keys, roundsOf]
    rw [← hlength, ← card_elements hs.keys, hs.kept, card_greatest]
    exact Nat.min_le_left _ _
  obtain ⟨round, hround, hlost⟩ : ∃ round ∈ rounds str rows, round ∉ roundsOf (after str fits ops) := by
    by_contra hall
    push Not at hall
    have hlength := ((Nodup.of_map _ hvalid.ids).subperm hall).length_le
    rw [length_rounds hvalid] at hlength
    omega
  obtain ⟨row, hrow, hsettled⟩ := mem_filterMap.mp hround
  have hagain : Delivers str rows (ops ++ [deliver str row]) := {
    only := fun op hop => by
      rcases mem_append.mp hop with hop | hop
      · exact hops.only op hop
      · rw [mem_singleton.mp hop]
        exact delivery_deliver hvalid hrow
    all := fun row hrow => by
      obtain ⟨corner, now, cancel_reason, hop⟩ := hops.all row hrow
      exact ⟨corner, now, cancel_reason, mem_append_left _ hop⟩ }
  have hnew : ¬ ∃ r ∈ after str fits ops, r.round.id = round.id := by
    rintro ⟨r, hr, hid⟩
    rw [← key_inj hvalid (hs.known r hr) hround hid] at hlost
    exact hlost (mem_map.mpr ⟨r, hr, rfl⟩)
  obtain ⟨_, r, hr⟩ := delivery_deliver hvalid hrow |>.2
  obtain ⟨hround', hr⟩ := hr
  rw [hsettled] at hround'
  cases hround'
  have hrecord := record_eq hs hsettled hr
  rw [if_neg hnew] at hrecord
  have hanswer := (h.answers _ hagain ops row _ _ _ [] rfl round hsettled true _ hrecord).mp rfl
  -- the ledger after the second delivery has the same rounds
  obtain ⟨r', hr', hid⟩ := hanswer.2
  have hafter : after str fits (ops ++ [deliver str row]) = prune (after str fits ops ++ [r]) := by
    rw [after, foldl_append, ← after, foldl_cons, foldl_nil]
    simp only [deliver, step]
    rw [hrecord]
  have hs' : Sound str rows (ops ++ [deliver str row]) (after str fits (ops ++ [deliver str row])) :=
    sound_after hvalid hagain.only
  have hmem : round ∈ roundsOf (after str fits (ops ++ [deliver str row])) := by
    rw [hafter, ← key_inj hvalid (hs'.known r' (hafter ▸ hr')) hround hid]
    exact mem_map.mpr ⟨r', hr', rfl⟩
  rw [mem_after hvalid hagain, ← mem_after hvalid hops] at hmem
  exact hlost hmem

omit hvalid

theorem participations_summary {rows : List Row} (h : user ∈ users rows) : 1 ≤ (summary user rows).participations := by
  obtain ⟨row, hrow, hu⟩ := mem_map.mp h
  have hmem : row ∈ ofUser user rows := mem_filter.mpr ⟨hrow, decide_eq_true hu⟩
  rw [summary, foldl_sum Entry.participations (fun _ => 1) (fun _ _ => rfl)]
  have := length_pos_of_mem hmem
  have hsum : ((ofUser user rows).map fun _ => 1).sum = (ofUser user rows).length := by simp
  omega

theorem board_all {rounds : List Round} {limit : ℕ}
    (hlimit : (totals statuses rounds).length ≤ limit) :
    board statuses metric 1 limit rounds = sortBy (sortKey metric) ((totals statuses rounds).filter (listed metric 1)) := by
  refine take_of_length_le ?_
  rw [(sortBy_perm _ _).length_eq]
  exact (length_filter_le _ _).trans hlimit

/-- The board of each view of the calls, whatever their order. -/
def SameBoard (str : Json → Text) (fits : Ledger → Bool) (rows : List Json) (statuses : Status → Bool) (metric : Metric) : Prop :=
  ∀ ops ops', Delivers str rows ops → Delivers str rows ops' → ∀ limit, 1 ≤ limit →
    board statuses metric 1 limit (roundsOf (after str fits ops)) = board statuses metric 1 limit (roundsOf (after str fits ops'))

include hvalid

include h

theorem sameBoard_boards (metric : Metric) :
    SameBoard str fits rows everyStatus metric := by
  intro ops ops' hops hops' limit hlimit
  have hs : Sound str rows ops (after str fits ops) := sound_after hvalid hops.only
  have hs' : Sound str rows ops' (after str fits ops') := sound_after hvalid hops'.only
  have hsame := h.boards ops ops' hops hops' 1 1 limit
  rw [boards_eq hs.checked, boards_eq hs'.checked, if_pos (by omega), if_pos (by omega)] at hsame
  have hmetric := map_inj_left.mp (Except.ok.inj hsame) metric (by cases metric <;> decide)
  simpa using (Prod.mk.inj hmetric).2

theorem sameBoard_ranking :
    SameBoard str fits rows gradedStatus .hit_rate := by
  intro ops ops' hops hops' limit hlimit
  have hs : Sound str rows ops (after str fits ops) := sound_after hvalid hops.only
  have hs' : Sound str rows ops' (after str fits ops') := sound_after hvalid hops'.only
  have hsame := h.ranking ops ops' hops hops' 1 limit
  rw [ranking_eq hs.checked, ranking_eq hs'.checked, if_pos (by omega), if_pos (by omega)] at hsame
  simpa using Except.ok.inj hsame

omit h

omit hvalid

/-- A row of the set, and the others. -/
theorem exists_rest (hround : round ∈ rounds str rows) :
    ∃ row rest, (row :: rest).Perm rows ∧ settled str row = some round := by
  obtain ⟨row, hrow, hsettled⟩ := mem_filterMap.mp hround
  obtain ⟨pre, post, rfl⟩ := append_of_mem hrow
  exact ⟨row, pre ++ post, perm_middle.symm, hsettled⟩

theorem lastName_last (l : List Round) (h : nameIn user round = some name) :
    lastName user (rowsOf everyStatus (l ++ [round])) = some name := by
  have hrows : rowsOf everyStatus [round] = round.predictors.map (round.status, ·) := by
    exact append_nil _
  rw [rowsOf_append, lastName_append, hrows, ← nameIn, h]
  rfl

theorem user_of_lastName {rows : List Row} (h : lastName user rows = some name) :
    user ∈ users rows := by
  obtain ⟨row, hrow, -⟩ := map_eq_some_iff.mp h
  obtain ⟨hmem, hu⟩ := mem_filter.mp (mem_of_getLast? hrow)
  exact mem_map.mpr ⟨row, hmem, of_decide_eq_true hu⟩

include hvalid

include hfew

/-- The round that comes last leaves the name on the board. -/
theorem independent_names (h : SameBoard str fits rows everyStatus .plays) : SameNames (rounds str rows) := by
  intro round hround round' hround' user name name' hname hname'
  obtain ⟨row, rest, hperm, hsettled⟩ := exists_rest hround
  obtain ⟨row', rest', hperm', hsettled'⟩ := exists_rest hround'
  have hlast : (rest ++ [row]).Perm rows := (perm_append_singleton row rest).trans hperm
  have hlast' : (rest' ++ [row']).Perm rows := (perm_append_singleton row' rest').trans hperm'
  have hsame := h _ _ (delivers_perm hvalid hlast) (delivers_perm hvalid hlast')
  rw [roundsOf_deliver_perm hvalid hfew hlast, roundsOf_deliver_perm hvalid hfew hlast'] at hsame
  have hrounds : rounds str (rest ++ [row]) = rounds str rest ++ [round] := by simp [rounds, hsettled]
  have hrounds' : rounds str (rest' ++ [row']) = rounds str rest' ++ [round'] := by simp [rounds, hsettled']
  rw [hrounds, hrounds'] at hsame
  have hn := lastName_last (rounds str rest) hname
  have hn' := lastName_last (rounds str rest') hname'
  set L := rounds str rest ++ [round]
  set L' := rounds str rest' ++ [round']
  have hboard := hsame ((totals everyStatus L).length + (totals everyStatus L').length + 1) (by omega)
  rw [board_all (by omega), board_all (by omega)] at hboard
  have hentry : summary user (rowsOf everyStatus L) ∈ totals everyStatus L := by
    rw [mem_totals, user_id_summary]
    exact ⟨user_of_lastName hn, rfl⟩
  have hlisted : listed .plays 1 (summary user (rowsOf everyStatus L)) = true :=
    decide_eq_true (participations_summary (user_of_lastName hn))
  have hmem := mem_sortBy (f := sortKey .plays).mpr (mem_filter.mpr ⟨hentry, hlisted⟩)
  rw [hboard, mem_sortBy, mem_filter, mem_totals, user_id_summary] at hmem
  have heq := hmem.1.2
  have hnames := names_summary user (rowsOf everyStatus L)
  rw [heq, names_summary, hn, hn'] at hnames
  simpa using hnames.symm

/-- The round that comes first decides the order of a tie. -/
theorem independent_ties (hnames : SameNames (rounds str rows))
    (h : SameBoard str fits rows statuses metric) :
    SameTies statuses metric (rounds str rows) := by
  intro e he e' he' hlisted hlisted' htie round hround round' hround' hstatus hstatus' hahead hahead'
  -- the two entries stand in the order of the round that comes first
  have hfirst : ∀ {round : Round} {e e' : Entry}, round ∈ rounds str rows → statuses round.status = true →
      Ahead round e.user_id e'.user_id → e ∈ totals statuses (rounds str rows) → e' ∈ totals statuses (rounds str rows) →
      listed metric 1 e = true → listed metric 1 e' = true → sortKey metric e = sortKey metric e' →
        ∃ l : List Json, l.Perm rows ∧
          [e, e'].Sublist (sortBy (sortKey metric) ((totals statuses (rounds str l)).filter (listed metric 1))) := by
    intro round e e' hround hstatus hahead he he' hlisted hlisted' htie
    obtain ⟨row, rest, hperm, hsettled⟩ := exists_rest hround
    refine ⟨row :: rest, hperm, pair_sortBy htie.le ?_⟩
    have htotals : (totals statuses (rounds str rows)).Perm (totals statuses (rounds str (row :: rest))) :=
      totals_perm hnames (hperm.symm.filterMap _)
    have htallied := tallied_totals statuses (rounds str (row :: rest))
    have hidx : (users (rowsOf statuses (rounds str (row :: rest)))).idxOf e.user_id <
        (users (rowsOf statuses (rounds str (row :: rest)))).idxOf e'.user_id := by
      rw [show rounds str (row :: rest) = round :: rounds str rest by simp [rounds, hsettled]]
      exact idxOf_of_ahead hstatus hahead
    have hne : e ≠ e' := by
      rintro rfl
      exact lt_irrefl _ hidx
    have hpair := (pair_or_pair (htotals.mem_iff.mp he) (htotals.mem_iff.mp he') hne).resolve_right fun hba => by
      have := htallied.order _ _ (hba.map user_id)
      omega
    have hfilter := hpair.filter (listed metric 1)
    rwa [filter_cons_of_pos hlisted, filter_cons_of_pos hlisted', filter_nil] at hfilter
  obtain ⟨l, hperm, hsub⟩ := hfirst hround hstatus hahead he he' hlisted hlisted' htie
  obtain ⟨l', hperm', hsub'⟩ := hfirst hround' hstatus' hahead' he' he hlisted' hlisted htie.symm
  have hsame := h _ _ (delivers_perm hvalid hperm) (delivers_perm hvalid hperm')
    ((totals statuses (rounds str l)).length + (totals statuses (rounds str l')).length + 1) (by omega)
  rw [roundsOf_deliver_perm hvalid hfew hperm, roundsOf_deliver_perm hvalid hfew hperm', board_all (by omega),
    board_all (by omega)] at hsame
  rw [← hsame] at hsub'
  have hnodup := (tallied_totals statuses (rounds str l)).nodup_entries.filter (listed metric 1)
  exact not_pair_pair ((sortBy_perm _ _).nodup_iff.mpr hnodup) hsub hsub'

omit hfew

include h in
theorem independent_steady : Steady str rows := by
  have hfew := independent_few hvalid h
  have hnames := independent_names hvalid hfew (sameBoard_boards hvalid h .plays)
  exact {
    few := hfew
    names := hnames
    boards := fun metric => independent_ties hvalid hfew hnames (sameBoard_boards hvalid h metric)
    ranking := independent_ties hvalid hfew hnames (sameBoard_ranking hvalid h) }

end Necessary

/-- The ledgers, the boards and the answers depend on the rows alone exactly for steady rows. -/
theorem independent_iff (str : Json → Text) (fits : Ledger → Bool) (rows : List Json) (hvalid : Valid str rows) :
    Independent str fits rows ↔ Steady str rows :=
  ⟨independent_steady hvalid, steady_independent hvalid⟩

/-! ## A viewer with two logins -/

/-- A settled row with one viewer. -/
def oneViewer (id user login : Text) : Json :=
  .object [(idKey, .string id), (titleKey, .string []), (statusKey, .string resolvedText), (winnerKey, .string ['x']),
    (outcomesKey, .array [
      .object [(idKey, .string ['x']), (titleKey, .string []), (topPredictorsKey, .array [
        .object [(userIdKey, .string user), (userLoginKey, .string login), (userNameKey, .string login), (usedKey, .int 10),
          (wonKey, .int 20)]])],
      .object [(idKey, .string ['y']), (titleKey, .string [])]])]

def renamed : List Json := [oneViewer ['1'] ['u'] ['a'], oneViewer ['2'] ['u'] ['b']]

/-- What a value that is no string reads as plays no part here. -/
def noText : Json → Text := fun _ => []

theorem valid_renamed : Valid noText renamed := ⟨by decide, by decide⟩

/-- A viewer who renamed is listed under the login of the row that came last. -/
theorem renamed_boards : Valid noText renamed ∧ Delivers noText renamed (renamed.map (deliver noText)) ∧
    Delivers noText renamed (renamed.reverse.map (deliver noText)) ∧
    boards (after noText (fun _ => true) (renamed.map (deliver noText))) 1 1 10 ≠
      boards (after noText (fun _ => true) (renamed.reverse.map (deliver noText))) 1 1 10 :=
  ⟨valid_renamed, delivers_perm valid_renamed (Perm.refl _), delivers_perm valid_renamed (reverse_perm _),
    by decide +kernel⟩

/-- Two rows in which the viewer kept the login. -/
def unrenamed : List Json := [oneViewer ['1'] ['u'] ['a'], oneViewer ['2'] ['u'] ['a']]

theorem valid_unrenamed : Valid noText unrenamed := ⟨by decide, by decide⟩

theorem mem_of_nameIn (h : nameIn user round = some name) :
    ∃ p ∈ round.predictors, name = (p.user_login, p.user_name) := by
  obtain ⟨row, hrow, rfl⟩ := map_eq_some_iff.mp h
  obtain ⟨hmem, -⟩ := mem_filter.mp (mem_of_getLast? hrow)
  obtain ⟨p, hp, rfl⟩ := mem_map.mp hmem
  exact ⟨p, hp, rfl⟩

theorem sameNames_unrenamed : SameNames (rounds noText unrenamed) := by
  have hall : ∀ round ∈ rounds noText unrenamed, ∀ p ∈ round.predictors, (p.user_login, p.user_name) = (['a'], ['a']) := by
    decide
  intro round hround round' hround' user name name' hname hname'
  obtain ⟨p, hp, rfl⟩ := mem_of_nameIn hname
  obtain ⟨p', hp', rfl⟩ := mem_of_nameIn hname'
  rw [hall round hround p hp, hall round' hround' p' hp']

/-- One viewer ties with nobody else. -/
theorem sameTies_unrenamed {metric : Metric} : SameTies statuses metric (rounds noText unrenamed) := by
  have hall : ∀ round ∈ rounds noText unrenamed, ∀ p ∈ round.predictors, p.user_id = ['u'] := by decide
  have huser : ∀ e ∈ totals statuses (rounds noText unrenamed), e.user_id = ['u'] := by
    intro e he
    obtain ⟨row, hrow, hu⟩ := mem_map.mp (mem_totals.mp he).1
    obtain ⟨round, hround, hrow⟩ := mem_flatMap.mp hrow
    split at hrow
    · obtain ⟨p, hp, rfl⟩ := mem_map.mp hrow
      rw [← hu]
      exact hall round hround p hp
    · cases hrow
  intro e he e' he' _ _ _ round _ round' _ _ _ hahead
  rw [huser e he, huser e' he'] at hahead
  exact absurd hahead (lt_irrefl _)

theorem steady_unrenamed : Steady noText unrenamed :=
  ⟨by decide, sameNames_unrenamed, fun _ => sameTies_unrenamed, sameTies_unrenamed⟩

theorem independent_unrenamed : Independent noText (fun _ => true) unrenamed :=
  (independent_iff noText (fun _ => true) unrenamed valid_unrenamed).mpr steady_unrenamed

end Docich.Predictions
