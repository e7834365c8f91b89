import Docich.Predictions.Independence

/-!
# What the totals of the viewers add up to

- `balances`: hits, rounds and participations, and the points of a viewer;
- `columns_graded`: canceled rounds add nothing to the columns of the hit-rate board;
- `standings_eq`, `columns_eq`: the board of `boards` against the one of `ranking`;
- `accounting`: both for every ledger that `record` built, and what a canceled round changes.
-/

namespace Docich.Predictions

open List Ranked Entry

open Ranked (sortBy)
open Wire (Json)

/-! ## The rows of checked rounds -/

variable {ledger : Ledger} {cancel_reason : Option Text} {rounds : List Round} {statuses : Status → Bool}

theorem checkLedger_reload {fits : Ledger → Bool} (h : checkLedger ledger = true) :
    checkLedger (reload fits ledger) = true := by
  unfold reload
  split
  · rw [checkLedger, all_eq_true] at h ⊢
    exact fun r hr => h r (mem_sortBy.mp hr)
  · exact h

variable {str : Json → Text} {ledger' : Ledger} {remote : Json} {corner user : Text}
    {now : Option ℤ} {p : Predictor} {rows : List Row} {e : Entry} {minimum : ℕ}

/-- The answer of `record` that lands a round. -/
theorem record_landed (h : record str ledger remote corner now cancel_reason = .ok (true, ledger')) :
    ∃ round r, extract str remote = .ok (some round) ∧ stored round corner now cancel_reason = .ok r ∧
      ledger' = prune (ledger ++ [r]) := by
  obtain ⟨-, h⟩ := check_bind h
  obtain ⟨id, -, h⟩ := bind_ok h
  split at h
  · cases h
  · obtain ⟨o, hextract, h⟩ := bind_ok h
    cases o with
    | none => cases h
    | some round =>
      obtain ⟨r, hr, h⟩ := bind_ok h
      cases h
      exact ⟨round, r, hextract, hr, rfl⟩

theorem record_kept (h : record str ledger remote corner now cancel_reason = .ok (false, ledger')) : ledger' = ledger := by
  obtain ⟨-, h⟩ := check_bind h
  obtain ⟨id, -, h⟩ := bind_ok h
  split at h
  · cases h
    rfl
  · obtain ⟨o, -, h⟩ := bind_ok h
    cases o with
    | none =>
      cases h
      rfl
    | some round =>
      obtain ⟨r, -, h⟩ := bind_ok h
      cases h

theorem checkLedger_record {answer : Bool} (hledger : checkLedger ledger = true)
    (h : record str ledger remote corner now cancel_reason = .ok (answer, ledger')) : checkLedger ledger' = true := by
  cases answer with
  | false => rwa [record_kept h]
  | true =>
    obtain ⟨round, r, hextract, hr, rfl⟩ := record_landed h
    rw [checkLedger, all_eq_true] at hledger ⊢
    intro r' hr'
    rcases mem_append.mp ((prune_sublist _).subset hr') with hr' | hr'
    · exact hledger r' hr'
    · rw [mem_singleton.mp hr']
      exact checkRound_stored hextract hr

/-- Every ledger that was built passes its check. -/
theorem checkLedger_after (str : Json → Text) (fits : Ledger → Bool) (ops : List Op) : checkLedger (after str fits ops) = true := by
  induction ops using List.reverseRecOn with
  | nil => rfl
  | append_singleton ops op ih =>
    rw [after, foldl_append, ← after, foldl_cons, foldl_nil]
    cases op with
    | record remote corner now cancel_reason =>
      simp only [step]
      split
      · next h => exact checkLedger_record ih h
      · exact ih
    | reload => exact checkLedger_reload ih

/-- Rows with the refund, the gain and the grade of their status. -/
def Checked (rows : List Row) : Prop := ∀ row ∈ rows, checkPredictor row.1 row.2 = true

theorem checked_rowsOf (h : checkLedger ledger = true) (statuses : Status → Bool) :
    Checked (rowsOf statuses (roundsOf ledger)) := by
  intro row hrow
  obtain ⟨round, hround, hrow⟩ := mem_flatMap.mp hrow
  obtain ⟨r, hr, rfl⟩ := mem_map.mp hround
  have hcheck := all_eq_true.mp h r hr
  simp only [checkRound, Bool.and_eq_true] at hcheck
  split at hrow
  · obtain ⟨p, hp, rfl⟩ := mem_map.mp hrow
    exact all_eq_true.mp hcheck.2 p hp
  · cases hrow

theorem checked_resolved (h : checkPredictor .RESOLVED p = true) : p.refunded = 0 := by
  simp only [checkPredictor, Bool.and_eq_true, decide_eq_true_eq] at h
  exact h.1.1.2

theorem checked_canceled (h : checkPredictor .CANCELED p = true) : p.refunded = p.used ∧ p.won = 0 := by
  simp [checkPredictor] at h
  exact ⟨h.1.2, h.2.2⟩

/-! ## Books of a viewer -/

/-- The rows of a round that list a viewer: one for each outcome that he is listed under. -/
def listings (user : Text) (round : Round) : ℕ := round.predictors.countP (·.user_id = user)

def hitStakes (user : Text) (rows : List Row) : ℤ :=
  ((ofUser user rows).map fun row => if row.1 = .RESOLVED ∧ row.2.hit = some true then (row.2.used : ℤ) else 0).sum

theorem hitStakes_snoc (user : Text) (rows : List Row) (row : Row) :
    hitStakes user (rows ++ [row]) = hitStakes user rows +
      if row.2.user_id = user ∧ row.1 = .RESOLVED ∧ row.2.hit = some true then (row.2.used : ℤ) else 0 := by
  unfold hitStakes
  by_cases h : row.2.user_id = user <;> simp [ofUser, h]

theorem balances (hrows : Checked rows) (user : Text) :
    (summary user rows).hits ≤ (summary user rows).rounds ∧ (summary user rows).rounds ≤ (summary user rows).participations ∧
      ((summary user rows).used : ℤ) = (summary user rows).lost + (summary user rows).refunded + hitStakes user rows ∧
      (summary user rows).net = (summary user rows).won - (summary user rows).lost - hitStakes user rows := by
  induction rows using List.reverseRecOn with
  | nil => exact ⟨le_rfl, le_rfl, rfl, rfl⟩
  | append_singleton rows row ih =>
    obtain ⟨hhits, hrounds, hused, hnet⟩ := ih fun r hr => hrows r (mem_append_left _ hr)
    have hrow := hrows row (mem_append_right _ (mem_singleton_self row))
    obtain ⟨status, p⟩ := row
    rw [summary_snoc, hitStakes_snoc]
    by_cases hu : p.user_id = user
    · simp only [if_pos hu]
      simp only [Entry.net] at hnet ⊢
      cases status with
      | RESOLVED =>
        have hrefund : p.refunded = 0 := checked_resolved hrow
        by_cases hhit : p.hit = some true
        · simp [Entry.add, hu, hhit, hrefund]
          omega
        · simp [Entry.add, hhit, hrefund]
          omega
      | CANCELED =>
        have hrefund : p.refunded = p.used := (checked_canceled hrow).1
        have hwon : p.won = 0 := (checked_canceled hrow).2
        simp [Entry.add, hrefund, hwon]
        omega
    · simpa [hu] using ⟨hhits, hrounds, hused, hnet⟩

theorem length_ofUser (user : Text) (statuses : Status → Bool) (rounds : List Round) :
    (ofUser user (rowsOf statuses rounds)).length = ((rounds.filter fun r => statuses r.status).map (listings user)).sum := by
  induction rounds with
  | nil => rfl
  | cons round rounds ih =>
    rw [rowsOf_cons, ofUser_append, length_append, ih]
    by_cases h : statuses round.status = true
    · rw [if_pos h, filter_cons, if_pos h, map_cons, sum_cons, ofUser, ← countP_eq_length_filter,
        countP_map]
      rfl
    · rw [if_neg h, filter_cons, if_neg h]
      exact Nat.zero_add _

theorem participations_eq (user : Text) (rows : List Row) : (summary user rows).participations = (ofUser user rows).length := by
  rw [summary, foldl_sum Entry.participations (fun _ => 1) (fun _ _ => rfl)]
  simp [Entry.new]

theorem rounds_eq (user : Text) (rows : List Row) :
    (summary user rows).rounds = (ofUser user (rows.filter fun row => gradedStatus row.1)).length := by
  induction rows using List.reverseRecOn with
  | nil => rfl
  | append_singleton rows row ih =>
    obtain ⟨status, p⟩ := row
    rw [summary_snoc, filter_append, ofUser_append, length_append, ← ih]
    by_cases hu : p.user_id = user
    · cases status <;> simp [hu, Entry.add, gradedStatus, ofUser]
    · cases status <;> simp [hu, gradedStatus, ofUser]

/-- Rounds that list a viewer once at most are counted once. -/
theorem sum_listings (h : ∀ round ∈ rounds, listings user round ≤ 1) :
    (rounds.map (listings user)).sum = (rounds.filter fun r => 0 < listings user r).length := by
  induction rounds with
  | nil => rfl
  | cons round rounds ih =>
    have hone := h round mem_cons_self
    rw [map_cons, sum_cons, ih fun r hr => h r (mem_cons_of_mem _ hr)]
    by_cases hpos : 0 < listings user round
    · rw [filter_cons, if_pos (decide_eq_true hpos), length_cons]
      omega
    · rw [filter_cons, if_neg (by simpa using hpos)]
      omega

/-! ## Graded rounds -/

theorem rowsOf_graded (rounds : List Round) :
    rowsOf gradedStatus rounds = (rowsOf everyStatus rounds).filter fun row => gradedStatus row.1 := by
  induction rounds with
  | nil => rfl
  | cons round rounds ih =>
    have hevery : everyStatus round.status = true := rfl
    rw [rowsOf_cons, rowsOf_cons, filter_append, ← ih, if_pos hevery, filter_map]
    congr 1
    cases h : gradedStatus round.status with
    | true => simp [Function.comp_def, h]
    | false => simp [Function.comp_def, h]

/-- The columns of a viewer on the hit-rate board. -/
def columns (e : Entry) : Text × ℕ × ℕ × ℕ × ℤ := (e.user_id, e.hits, e.rounds, e.won, e.net)

/-- What a row adds to the hits, the rounds, the gain and the net. -/
def worth (row : Row) : ℕ × ℕ × ℕ × ℤ :=
  (if row.1 = .RESOLVED ∧ row.2.hit = some true then 1 else 0, if row.1 = .RESOLVED then 1 else 0, row.2.won,
    row.2.won - row.2.used + row.2.refunded)

theorem worth_canceled {row : Row} (hrow : checkPredictor row.1 row.2 = true) (h : gradedStatus row.1 = false) :
    worth row = 0 := by
  obtain ⟨status, p⟩ := row
  cases status with
  | RESOLVED => cases h
  | CANCELED =>
    have hrefund : p.refunded = p.used := (checked_canceled hrow).1
    have hwon : p.won = 0 := (checked_canceled hrow).2
    simp [worth, hrefund, hwon]

theorem sum_worth (hrows : Checked rows) :
    (rows.map worth).sum = ((rows.filter fun row => gradedStatus row.1).map worth).sum := by
  induction rows with
  | nil => rfl
  | cons row rows ih =>
    have hih := ih fun r hr => hrows r (mem_cons_of_mem _ hr)
    rw [map_cons, sum_cons, hih]
    cases h : gradedStatus row.1 with
    | true => rw [filter_cons, if_pos h, map_cons, sum_cons]
    | false =>
      rw [filter_cons, if_neg (by simp [h]), worth_canceled (hrows row mem_cons_self) h, zero_add]

theorem columns_summary (user : Text) (rows : List Row) :
    columns (summary user rows) = (user, ((ofUser user rows).map worth).sum) := by
  have hsum := foldl_sum (fun e : Entry => (e.hits, e.rounds, e.won, e.net)) worth
    (fun e row => by simp [Entry.add, Entry.net, worth]; ring) (ofUser user rows) (Entry.new user)
  have hnew : ((Entry.new user).hits, (Entry.new user).rounds, (Entry.new user).won, (Entry.new user).net) = 0 := rfl
  rw [hnew, zero_add] at hsum
  rw [← hsum, columns, user_id_summary]
  rfl

/-- Canceled rounds add nothing to the columns. -/
theorem columns_graded (hrows : Checked (rowsOf everyStatus rounds)) (user : Text) :
    columns (summary user (rowsOf everyStatus rounds)) = columns (summary user (rowsOf gradedStatus rounds)) := by
  have huser : Checked (ofUser user (rowsOf everyStatus rounds)) := fun r hr => hrows r (mem_of_mem_filter hr)
  rw [columns_summary, columns_summary, sum_worth huser, rowsOf_graded, ofUser, ofUser, filter_filter, filter_filter]
  simp only [Bool.and_comm]

/-! ## The hit-rate board -/

/-- The viewers of a board without a limit. -/
def entrants (statuses : Status → Bool) (minimum : ℕ) (rounds : List Round) : List Entry :=
  (totals statuses rounds).filter (listed .hit_rate minimum)

/-- What the order of the board goes by before the login. -/
def place (c : Text × ℕ × ℕ × ℕ × ℤ) : ℚ ×ₗ ℤ ×ₗ ℤ :=
  toLex (-(if c.2.2.1 = 0 then 0 else (c.2.1 : ℚ) / c.2.2.1), toLex (-c.2.1, -c.2.2.2.2))

def standing (e : Entry) : ℚ ×ₗ ℤ ×ₗ ℤ := place (columns e)

theorem sortKey_le {e' : Entry} : sortKey .hit_rate e ≤ sortKey .hit_rate e' ↔
    standing e < standing e' ∨ standing e = standing e' ∧ e.user_login ≤ e'.user_login := by
  simp only [sortKey, standing, place, columns, hit_rate, Prod.Lex.toLex_le_toLex, Prod.Lex.toLex_lt_toLex, toLex_inj,
    Prod.mk.injEq]
  tauto

/-- A row that counts adds a round. -/
theorem rounds_pos (h : 1 ≤ (summary user (rowsOf statuses rounds)).rounds) : user ∈ users (rowsOf statuses rounds) := by
  by_contra hnot
  have hnone : ofUser user (rowsOf statuses rounds) = [] := by
    rw [ofUser, filter_eq_nil_iff]
    intro r hr hu
    exact hnot (mem_map.mpr ⟨r, hr, of_decide_eq_true hu⟩)
  rw [summary, hnone] at h
  exact absurd h (by simp [Entry.new])

theorem mem_entrants (hmin : 1 ≤ minimum) :
    e ∈ entrants statuses minimum rounds ↔ e = summary e.user_id (rowsOf statuses rounds) ∧ minimum ≤ e.rounds := by
  rw [entrants, mem_filter, mem_totals]
  simp only [listed, decide_eq_true_eq]
  constructor
  · exact fun h => ⟨h.1.2, h.2⟩
  · rintro ⟨he, hrounds⟩
    rw [he] at hrounds
    have hpos : 1 ≤ (summary e.user_id (rowsOf statuses rounds)).rounds := by omega
    exact ⟨⟨rounds_pos hpos, he⟩, by rwa [he]⟩

theorem mem_map_entrants (hmin : 1 ≤ minimum) {β : Type}
    (f : Entry → β) (b : β) : b ∈ (entrants statuses minimum rounds).map f ↔
      ∃ user, minimum ≤ (summary user (rowsOf statuses rounds)).rounds ∧ f (summary user (rowsOf statuses rounds)) = b := by
  rw [mem_map]
  constructor
  · rintro ⟨e, he, rfl⟩
    obtain ⟨he, hrounds⟩ := (mem_entrants hmin).mp he
    exact ⟨e.user_id, he ▸ hrounds, by rw [← he]⟩
  · rintro ⟨user, hrounds, rfl⟩
    exact ⟨_, (mem_entrants hmin).mpr ⟨by rw [user_id_summary], hrounds⟩, rfl⟩

theorem nodup_columns (statuses : Status → Bool) (minimum : ℕ) (rounds : List Round) :
    ((entrants statuses minimum rounds).map columns).Nodup := by
  have hids : (((entrants statuses minimum rounds).map columns).map Prod.fst).Nodup := by
    rw [map_map]
    exact (filter_sublist.map user_id).nodup (tallied_totals statuses rounds).nodup
  exact Nodup.of_map _ hids

section Boards

variable {statuses statuses' : Status → Bool} {minimum : ℕ} {rounds rounds' : List Round}

/-- Two books that agree in the columns of every viewer. -/
def SameColumns (statuses statuses' : Status → Bool) (rounds rounds' : List Round) : Prop :=
  ∀ user, columns (summary user (rowsOf statuses rounds)) = columns (summary user (rowsOf statuses' rounds'))

theorem rounds_columns {e e' : Entry} (h : columns e = columns e') : e.rounds = e'.rounds := (Prod.mk.inj (Prod.mk.inj (Prod.mk.inj h).2).2).1

theorem entrants_columns (hmin : 1 ≤ minimum) (h : SameColumns statuses statuses' rounds rounds') :
    ((entrants statuses minimum rounds).map columns).Perm ((entrants statuses' minimum rounds').map columns) := by
  rw [perm_ext_iff_of_nodup (nodup_columns _ _ _) (nodup_columns _ _ _)]
  intro c
  rw [mem_map_entrants hmin, mem_map_entrants hmin]
  refine exists_congr fun user => ?_
  rw [h user, rounds_columns (h user)]

/-- The viewers of the board, in its order. -/
def placed (statuses : Status → Bool) (minimum : ℕ) (rounds : List Round) : List Entry :=
  sortBy (sortKey .hit_rate) (entrants statuses minimum rounds)

theorem board_placed (statuses : Status → Bool) (minimum limit : ℕ) (rounds : List Round) :
    board statuses .hit_rate minimum limit rounds = (placed statuses minimum rounds).take limit := rfl

theorem placed_columns (hmin : 1 ≤ minimum) (h : SameColumns statuses statuses' rounds rounds') :
    ((placed statuses minimum rounds).map columns).Perm ((placed statuses' minimum rounds').map columns) :=
  ((sortBy_perm _ _).map _).trans ((entrants_columns hmin h).trans ((sortBy_perm _ _).map _).symm)

theorem placed_standings (statuses : Status → Bool) (minimum : ℕ) (rounds : List Round) :
    ((placed statuses minimum rounds).map standing).Pairwise (· ≤ ·) := by
  rw [pairwise_map]
  refine (sortBy_pairwise _ _).imp fun hle => ?_
  rcases sortKey_le.mp hle with hlt | ⟨heq, -⟩
  · exact hlt.le
  · exact heq.le

/-- The hit rates, hits and nets of the places are the same. -/
theorem standings_eq (hmin : 1 ≤ minimum) (h : SameColumns statuses statuses' rounds rounds') :
    (placed statuses minimum rounds).map standing = (placed statuses' minimum rounds').map standing := by
  have hperm := (placed_columns hmin h).map place
  rw [map_map, map_map] at hperm
  exact Perm.eq_of_pairwise (fun a b _ _ hab hba => le_antisymm hab hba) (placed_standings _ _ _)
    (placed_standings _ _ _) hperm

def login (statuses : Status → Bool) (rounds : List Round) (user : Text) : Text :=
  (summary user (rowsOf statuses rounds)).user_login

/-- Viewers of the board that tie in hit rate, hits and net have different logins, in one order by both books. -/
def TiesKept (statuses statuses' : Status → Bool) (minimum : ℕ) (rounds rounds' : List Round) : Prop :=
  ∀ user user', user ≠ user' → minimum ≤ (summary user (rowsOf statuses rounds)).rounds →
    minimum ≤ (summary user' (rowsOf statuses rounds)).rounds →
    standing (summary user (rowsOf statuses rounds)) = standing (summary user' (rowsOf statuses rounds)) →
    login statuses rounds user < login statuses rounds user' ∧ login statuses' rounds' user < login statuses' rounds' user' ∨
    login statuses rounds user' < login statuses rounds user ∧ login statuses' rounds' user' < login statuses' rounds' user

variable (h : SameColumns statuses statuses' rounds rounds')

include h

theorem standing_same (user : Text) :
    standing (summary user (rowsOf statuses rounds)) = standing (summary user (rowsOf statuses' rounds')) :=
  congrArg place (h user)

variable (hties : TiesKept statuses statuses' minimum rounds rounds')

include hties in
/-- Two viewers of the board are in one order by both books. -/
theorem before_iff {user user' : Text}
    (hu : minimum ≤ (summary user (rowsOf statuses rounds)).rounds)
    (hu' : minimum ≤ (summary user' (rowsOf statuses rounds)).rounds) :
    sortKey .hit_rate (summary user (rowsOf statuses rounds)) ≤ sortKey .hit_rate (summary user' (rowsOf statuses rounds)) ↔
      sortKey .hit_rate (summary user (rowsOf statuses' rounds')) ≤ sortKey .hit_rate (summary user' (rowsOf statuses' rounds')) := by
  by_cases hne : user = user'
  · rw [hne]
    simp
  · rw [sortKey_le, sortKey_le, ← standing_same h, ← standing_same h]
    refine or_congr Iff.rfl (and_congr_right fun htie => ?_)
    rcases hties user user' hne hu hu' htie with ⟨hlt, hlt'⟩ | ⟨hlt, hlt'⟩
    · exact iff_of_true hlt.le hlt'.le
    · exact iff_of_false hlt.not_ge hlt'.not_ge

omit h

include hties in
/-- Two viewers of the board are not in both orders. -/
theorem before_antisymm {user user' : Text}
    (hu : minimum ≤ (summary user (rowsOf statuses rounds)).rounds)
    (hu' : minimum ≤ (summary user' (rowsOf statuses rounds)).rounds)
    (hle : sortKey .hit_rate (summary user (rowsOf statuses rounds)) ≤ sortKey .hit_rate (summary user' (rowsOf statuses rounds)))
    (hge : sortKey .hit_rate (summary user' (rowsOf statuses rounds)) ≤ sortKey .hit_rate (summary user (rowsOf statuses rounds))) :
    user = user' := by
  by_contra hne
  rcases sortKey_le.mp hle with hlt | ⟨htie, hlogin⟩
  · rcases sortKey_le.mp hge with hlt' | ⟨htie, -⟩
    · exact lt_asymm hlt hlt'
    · exact hlt.ne' htie
  · rcases sortKey_le.mp hge with hlt | ⟨-, hlogin'⟩
    · exact hlt.ne' htie
    · rcases hties user user' hne hu hu' htie with ⟨hlt, -⟩ | ⟨hlt, -⟩
      · exact hlt.not_ge hlogin'
      · exact hlt.not_ge hlogin

theorem mem_placed (hmin : 1 ≤ minimum) {e : Entry} (he : e ∈ placed statuses minimum rounds) :
    e = summary e.user_id (rowsOf statuses rounds) ∧ minimum ≤ (summary e.user_id (rowsOf statuses rounds)).rounds := by
  obtain ⟨heq, hrounds⟩ := (mem_entrants hmin).mp (mem_sortBy.mp he)
  refine ⟨heq, ?_⟩
  rw [← heq]
  exact hrounds

/-- The board lists the same viewers with the same columns in the same order. -/
theorem columns_eq (hmin : 1 ≤ minimum) (h : SameColumns statuses statuses' rounds rounds')
    (hties : TiesKept statuses statuses' minimum rounds rounds') :
    (placed statuses minimum rounds).map columns = (placed statuses' minimum rounds').map columns := by
  have hperm := placed_columns hmin h
  let key (user : Text) := sortKey .hit_rate (summary user (rowsOf statuses rounds))
  refine Perm.eq_of_pairwise ?_ (?_ : List.Pairwise (fun c d => key c.1 ≤ key d.1) _) ?_ hperm
  · intro c d hc hd hcd hdc
    obtain ⟨e, he, rfl⟩ := mem_map.mp hc
    obtain ⟨e', he', rfl⟩ := mem_map.mp (hperm.mem_iff.mpr hd)
    obtain ⟨heq, hrounds⟩ := mem_placed hmin he
    obtain ⟨heq', hrounds'⟩ := mem_placed hmin he'
    rw [heq, heq', before_antisymm hties hrounds hrounds' hcd hdc]
  · rw [pairwise_map]
    refine (sortBy_pairwise _ _).imp_of_mem fun he he' hle => ?_
    rwa [(mem_placed hmin he).1, (mem_placed hmin he').1] at hle
  · rw [pairwise_map]
    refine (sortBy_pairwise _ _).imp_of_mem fun he he' hle => ?_
    obtain ⟨heq, hrounds⟩ := mem_placed hmin he
    obtain ⟨heq', hrounds'⟩ := mem_placed hmin he'
    rw [← rounds_columns (h _)] at hrounds hrounds'
    rw [heq, heq'] at hle
    exact (before_iff h hties hrounds hrounds').mpr hle

end Boards

/-! ## Ledgers -/

/-- The books of a viewer over the rounds of a ledger. -/
structure Books (rounds : List Round) (e : Entry) : Prop where
  rounds_eq : e.rounds = ((rounds.filter fun r => r.status = .RESOLVED).map (listings e.user_id)).sum
  participations_eq : e.participations = (rounds.map (listings e.user_id)).sum
  once : (∀ round ∈ rounds, listings e.user_id round ≤ 1) →
    e.rounds = ((rounds.filter fun r => r.status = .RESOLVED).filter fun r => 0 < listings e.user_id r).length ∧
      e.participations = (rounds.filter fun r => 0 < listings e.user_id r).length
  hits_le : e.hits ≤ e.rounds
  rounds_le : e.rounds ≤ e.participations
  used : (e.used : ℤ) = e.lost + e.refunded + hitStakes e.user_id (rowsOf everyStatus rounds)
  net : e.net = e.won - e.lost - hitStakes e.user_id (rowsOf everyStatus rounds)

theorem books (hrows : Checked (rowsOf everyStatus rounds)) (he : e ∈ totals everyStatus rounds) :
    Books rounds e := by
  have heq := (mem_totals.mp he).2
  obtain ⟨hhits, hrounds, hused, hnet⟩ := balances hrows e.user_id
  rw [← heq] at hhits hrounds hused hnet
  have hcount : e.rounds = ((rounds.filter fun r => r.status = .RESOLVED).map (listings e.user_id)).sum := by
    rw [heq, user_id_summary, rounds_eq, ← rowsOf_graded, length_ofUser]
    rfl
  have hparts : e.participations = (rounds.map (listings e.user_id)).sum := by
    have hall : rounds.filter (fun r => everyStatus r.status) = rounds := filter_eq_self.mpr fun _ _ => rfl
    rw [heq, user_id_summary, participations_eq, length_ofUser, hall]
  refine ⟨hcount, hparts, fun honce => ⟨?_, ?_⟩, hhits, hrounds, hused, hnet⟩
  · rw [hcount, sum_listings fun r hr => honce r (mem_of_mem_filter hr)]
  · rw [hparts, sum_listings honce]

theorem rowsOf_filter (rounds : List Round) :
    rowsOf gradedStatus (rounds.filter fun r => gradedStatus r.status) = rowsOf gradedStatus rounds := by
  induction rounds with
  | nil => rfl
  | cons round rounds ih =>
    cases h : gradedStatus round.status with
    | true => rw [filter_cons, if_pos h, rowsOf_cons, rowsOf_cons, ih]
    | false =>
      rw [filter_cons, if_neg (by simp [h]), rowsOf_cons, if_neg (by simp [h]), nil_append, ih]

/-- A canceled round that pushes no graded round out leaves the graded rounds. -/
theorem graded_prune {r : Recorded} (hr : r.round.status = .CANCELED)
    (hkept : ∀ r' ∈ ledger, r'.round.status = .RESOLVED → r' ∈ prune (ledger ++ [r])) :
    rowsOf gradedStatus (roundsOf (prune (ledger ++ [r]))) = rowsOf gradedStatus (roundsOf ledger) := by
  have hgraded : (prune (ledger ++ [r])).filter (fun r => gradedStatus r.round.status) =
      ledger.filter fun r => gradedStatus r.round.status := by
    have hnone : [r].filter (fun r => gradedStatus r.round.status) = [] := by simp [gradedStatus, hr]
    have hall : (ledger ++ [r]).filter (fun r => gradedStatus r.round.status) =
        ledger.filter fun r => gradedStatus r.round.status := by
      rw [filter_append, hnone, append_nil]
    unfold prune at hkept ⊢
    split
    · exact hall
    · next hlong =>
      rw [if_neg hlong] at hkept
      rw [filter_filter, ← hall]
      refine filter_congr fun r' hr' => ?_
      cases h : gradedStatus r'.round.status with
      | false => rfl
      | true =>
        rcases mem_append.mp hr' with hr' | hr'
        · have hstays := hkept r' hr' (of_decide_eq_true h)
          rw [mem_filter] at hstays
          rw [hstays.2, Bool.and_true]
        · rw [mem_singleton.mp hr', hr] at h
          cases h
  rw [← rowsOf_filter, ← rowsOf_filter (roundsOf ledger), roundsOf, roundsOf, filter_map, filter_map]
  exact congrArg (fun l => rowsOf gradedStatus (l.map Recorded.round)) hgraded

def boardOf (metric : Metric) (boards : List (Metric × List Entry)) : List Entry := (boards.lookup metric).getD []

/-- Two boards with such a limit: their places have the same hit rates, hits and nets; a board that the limit does not cut lists
the same viewers with the same columns; and when the ties are kept, each board does, place by place. -/
structure Agree (limit : ℤ) (kept : Prop) (board board' : List Entry) : Prop where
  standings : board.map standing = board'.map standing
  members : board.length < limit → (board.map columns).Perm (board'.map columns)
  places : kept → board.map columns = board'.map columns

theorem agree_board {statuses' : Status → Bool} {rounds' : List Round} {minimum limit : ℤ} (hmin : 1 ≤ minimum)
    (hlimit : 1 ≤ limit) (h : SameColumns statuses statuses' rounds rounds') :
    Agree limit (TiesKept statuses statuses' minimum.toNat rounds rounds') (board statuses .hit_rate minimum.toNat limit.toNat rounds)
      (board statuses' .hit_rate minimum.toNat limit.toNat rounds') := by
  have hmin : 1 ≤ minimum.toNat := by omega
  rw [board_placed, board_placed]
  refine ⟨?_, fun hshort => ?_, fun hties => ?_⟩
  · rw [map_take, map_take, standings_eq hmin h]
  · have hlength := (placed_columns hmin h).length_eq
    rw [length_map, length_map] at hlength
    rw [length_take] at hshort
    rw [take_of_length_le (by omega), take_of_length_le (by omega)]
    exact placed_columns hmin h
  · rw [map_take, map_take, columns_eq hmin h hties]

theorem boardOf_boards (h : checkLedger ledger = true) {min_rounds min_participations limit : ℤ}
    (hmin : 1 ≤ min_rounds) (hparts : 1 ≤ min_participations) (hlimit : 1 ≤ limit) :
    ∃ bs, boards ledger min_rounds min_participations limit = .ok bs ∧
      boardOf .hit_rate bs = board everyStatus .hit_rate min_rounds.toNat limit.toNat (roundsOf ledger) := by
  rw [boards_eq h, if_pos ⟨hmin, hparts, hlimit⟩]
  refine ⟨_, rfl, ?_⟩
  simp [boardOf, METRICS]

/-- **The books of the viewers.** In every ledger that was built, the totals of a viewer count his rows and balance, and the
hit-rate board agrees with the ranking, and with itself after a canceled round that pushes no graded round out. -/
theorem accounting (str : Json → Text) (fits : Ledger → Bool) (ops : List Op) :
    (∀ e ∈ totals everyStatus (roundsOf (after str fits ops)), Books (roundsOf (after str fits ops)) e) ∧
    ∀ min_rounds min_participations limit : ℤ, 1 ≤ min_rounds → 1 ≤ min_participations → 1 ≤ limit →
      ∃ bs, boards (after str fits ops) min_rounds min_participations limit = .ok bs ∧
        (∃ rows, ranking (after str fits ops) min_rounds limit = .ok rows ∧
          Agree limit (TiesKept everyStatus gradedStatus min_rounds.toNat (roundsOf (after str fits ops))
            (roundsOf (after str fits ops))) (boardOf .hit_rate bs) rows) ∧
        ∀ remote round corner now cancel_reason ledger', settled str remote = some round → round.status = .CANCELED →
          record str (after str fits ops) remote corner now cancel_reason = .ok (true, ledger') →
          (∀ r ∈ after str fits ops, r.round.status = .RESOLVED → r ∈ ledger') →
          ∃ bs', boards ledger' min_rounds min_participations limit = .ok bs' ∧
            Agree limit (TiesKept everyStatus everyStatus min_rounds.toNat (roundsOf ledger') (roundsOf (after str fits ops)))
              (boardOf .hit_rate bs') (boardOf .hit_rate bs) := by
  have hledger := checkLedger_after str fits ops
  have hrows := checked_rowsOf hledger everyStatus
  refine ⟨fun e he => books hrows he, fun min_rounds min_participations limit hmin hparts hlimit => ?_⟩
  obtain ⟨bs, hbs, hboard⟩ := boardOf_boards hledger hmin hparts hlimit
  refine ⟨bs, hbs, ⟨_, by rw [ranking_eq hledger, if_pos ⟨hmin, hlimit⟩], ?_⟩, ?_⟩
  · rw [hboard]
    exact agree_board hmin hlimit (columns_graded hrows)
  · intro remote round corner now cancel_reason ledger' hround hcanceled hrecord hkept
    have hledger' := checkLedger_record hledger hrecord
    obtain ⟨bs', hbs', hboard'⟩ := boardOf_boards hledger' hmin hparts hlimit
    refine ⟨bs', hbs', ?_⟩
    rw [hboard, hboard']
    refine agree_board hmin hlimit fun user => ?_
    obtain ⟨round', r, hextract, hr, rfl⟩ := record_landed hrecord
    rw [settled_some hround] at hextract
    cases hextract
    rw [columns_graded (checked_rowsOf hledger' everyStatus), columns_graded hrows,
      graded_prune ((stored_ok hr).1 ▸ hcanceled) hkept]

/-! ## A viewer under two outcomes, and one who renamed -/

def viewer (user login : Text) : Json :=
  .object [(userIdKey, .string user), (userLoginKey, .string login), (userNameKey, .string login), (usedKey, .int 10),
    (wonKey, .int 20)]

def settledRow (id title status winner : Text) (x y : List Json) : Json :=
  .object [(idKey, .string id), (titleKey, .string title), (statusKey, .string status), (winnerKey, .string winner),
    (outcomesKey, .array [
      .object [(idKey, .string ['x']), (titleKey, .string []), (topPredictorsKey, .array x)],
      .object [(idKey, .string ['y']), (titleKey, .string []), (topPredictorsKey, .array y)]])]

/-- One viewer under both outcomes of the only round. -/
def twice : Ledger :=
  after noText (fun _ => true)
    [.record (settledRow ['1'] [] resolvedText ['x'] [viewer ['u'] ['a']] [viewer ['u'] ['a']]) ['c'] none none]

/-- Two viewers who tie; in a canceled round one of them has another login. -/
def tied : Ledger :=
  after noText (fun _ => true)
    [.record (settledRow ['1'] [] resolvedText ['x'] [viewer ['u'] ['a'], viewer ['v'] ['b']] []) ['c'] none none,
      .record (settledRow ['2'] [] canceledText [] [viewer ['u'] ['d']] []) ['c'] none (some noContest)]

theorem sortBy_two {α β : Type} [LinearOrder β] (f : α → β) (a b : α) : sortBy f [a, b] = if f a ≤ f b then [a, b] else [b, a] := by
  by_cases h : f a ≤ f b <;> simp [sortBy, List.mergeSort, List.MergeSort.Internal.splitInTwo, h]

/-- The place of a viewer with one hit in one round. -/
def oneHit (user login : Text) (participations used refunded : ℕ) : Entry :=
  ⟨user, login, login, 1, participations, 1, used, 20, 0, refunded⟩

/-- One round counts twice for a viewer under both outcomes, and the board has not the order of the ranking. -/
theorem accounting_amiss :
    ((roundsOf twice).length = 1 ∧ (totals everyStatus (roundsOf twice)).map Entry.rounds = [2]) ∧
      ∃ bs rows, boards tied 1 1 10 = .ok bs ∧ ranking tied 1 10 = .ok rows ∧
        (boardOf .hit_rate bs).map user_id = [['v'], ['u']] ∧ rows.map user_id = [['u'], ['v']] := by
  have hledger : checkLedger tied = true := checkLedger_after _ _ _
  obtain ⟨bs, hbs, hboard⟩ := boardOf_boards hledger (le_refl 1) (le_refl 1) (show (1 : ℤ) ≤ 10 by decide)
  refine ⟨by decide, bs, _, hbs, by rw [ranking_eq hledger, if_pos (by decide)], ?_, ?_⟩
  · have hentrants : entrants everyStatus 1 (roundsOf tied) = [oneHit ['u'] ['d'] 2 20 10, oneHit ['v'] ['b'] 1 10 0] := by
      decide
    have hkey : ¬ sortKey .hit_rate (oneHit ['u'] ['d'] 2 20 10) ≤ sortKey .hit_rate (oneHit ['v'] ['b'] 1 10 0) := by
      decide +kernel
    rw [hboard, board_placed, placed, show (1 : ℤ).toNat = 1 from rfl, hentrants, sortBy_two, if_neg hkey]
    rfl
  · have hentrants : entrants gradedStatus 1 (roundsOf tied) = [oneHit ['u'] ['a'] 1 10 0, oneHit ['v'] ['b'] 1 10 0] := by
      decide
    have hkey : sortKey .hit_rate (oneHit ['u'] ['a'] 1 10 0) ≤ sortKey .hit_rate (oneHit ['v'] ['b'] 1 10 0) := by
      decide +kernel
    rw [board_placed, placed, show (1 : ℤ).toNat = 1 from rfl, hentrants, sortBy_two, if_pos hkey]
    rfl

end Docich.Predictions
