import Docich.ViewerMemory.Identity

/-!
# What is kept of the viewers

- `Stored`: the invariant of the file; `Touched`: the viewers while a sidecar is committed;
- `stored_run`, `commit_again`: every run;
- `staged_memory`: a sidecar that was staged, committed after any run;
- `blank_name`: a name that is normalized to another one.
-/

namespace Docich.ViewerMemory

open List Option Ranked

open Durable (Table)
open Ranked (sortBy)

variable {u : Unicode} {sha256 : Text → Text} {caps : Caps} {staged : StagedPayload} {now cutoff : ℤ}

/-! ## Times -/

variable {item : Exchange} {exchanges : List Exchange} {t : ℤ} {keep n : ℕ} {α : Type} {l : List α}
    {s : Users × ℕ}

theorem le_latest (h : item ∈ exchanges) : _safe_epoch item.played_at ≤ latest exchanges := by
  induction exchanges with
  | nil => cases h
  | cons first rest ih =>
    rcases mem_cons.mp h with rfl | h
    · exact le_max_left _ _
    · exact (ih h).trans (le_max_right _ _)

theorem latest_le (ht : 0 ≤ t) (h : ∀ item ∈ exchanges, _safe_epoch item.played_at ≤ t) :
    latest exchanges ≤ t := by
  induction exchanges with
  | nil => exact ht
  | cons first rest ih =>
    exact max_le (h first mem_cons_self) (ih fun item hitem => h item (mem_cons_of_mem _ hitem))

theorem latest_nonneg (exchanges : List Exchange) : 0 ≤ latest exchanges := by
  cases exchanges with
  | nil => exact le_rfl
  | cons first rest => exact (le_max_left 0 first.played_at).trans (le_max_left _ _)

theorem now_fresh (caps : Caps) (h : item.played_at = now) : isFresh (caps.cutoff now) item = true := by
  simp only [isFresh, _safe_epoch, Caps.cutoff, decide_eq_true_eq, h]
  omega

/-! ## Pruning -/

variable {user user' : Viewer} {users began : Users} {checked : Checked} {event : StagedEvent}

variable (h : user.refresh cutoff = some user')

include h in
theorem refresh_spec :
    user'.exchanges = user.exchanges.filter (isFresh cutoff) ∧ user'.exchanges ≠ [] ∧ user'.last_seen_at = latest user'.exchanges := by
  unfold Viewer.refresh at h
  dsimp only at h
  split at h
  case isTrue => cases h
  case isFalse hne =>
    obtain rfl := some.inj h
    exact ⟨rfl, hne, rfl⟩

theorem refresh_none (h : user.refresh cutoff = none) : ∀ item ∈ user.exchanges, isFresh cutoff item = false := by
  unfold Viewer.refresh at h
  dsimp only at h
  split at h
  case isTrue hnil =>
    intro item hitem
    by_contra hfresh
    have : item ∈ user.exchanges.filter (isFresh cutoff) := mem_filter.mpr ⟨hitem, by simpa using hfresh⟩
    rw [hnil] at this
    cases this
  case isFalse => cases h

/-- A viewer whose exchanges are all fresh is kept as it is, but for the time of the last one. -/
theorem refresh_fresh (hne : user.exchanges ≠ []) (hfresh : ∀ item ∈ user.exchanges, isFresh cutoff item = true) :
    user.refresh cutoff = some { user with last_seen_at := latest user.exchanges } := by
  unfold Viewer.refresh
  rw [filter_eq_self.mpr hfresh, if_neg hne]

theorem mem_prune (h : user' ∈ _prune_users users cutoff keep) :
    ∃ user ∈ users, user.refresh cutoff = some user' := by
  unfold _prune_users at h
  dsimp only at h
  split at h
  · exact Table.mem_refresh.mp h
  · exact Table.mem_refresh.mp (Table.mem_filter.mp h).1

theorem length_prune (users : Users) (cutoff : ℤ) (keep : ℕ) : (_prune_users users cutoff keep).rows.length ≤ keep := by
  unfold _prune_users
  dsimp only
  split
  case isTrue hle => exact hle
  case isFalse =>
    generalize hnewest : ((sortBy (fun user : Viewer => -_safe_epoch user.last_seen_at)
      (users.refresh (Viewer.refresh cutoff) refresh_key).rows).take keep).map Viewer.key = newest
    have hlength : newest.length ≤ keep := by
      rw [← hnewest, length_map]
      exact length_take_le _ _
    have hsub : ((users.refresh (Viewer.refresh cutoff) refresh_key).filter (·.key ∈ newest)).rows.map Viewer.key ⊆ newest := by
      intro key hkey
      obtain ⟨user, huser, rfl⟩ := mem_map.mp hkey
      exact of_decide_eq_true (mem_filter.mp huser).2
    have hle := ((Table.nodup _).subperm hsub).length_le
    rw [length_map] at hle
    exact hle.trans hlength

/-- Nobody is over the cap. -/
theorem mem_prune_of_le (hle : users.rows.length ≤ keep) (h : user ∈ users)
    (hrefresh : user.refresh cutoff = some user') : user' ∈ _prune_users users cutoff keep := by
  unfold _prune_users
  have hlength : (users.refresh (Viewer.refresh cutoff) refresh_key).rows.length ≤ keep := (length_filterMap_le _ _).trans hle
  rw [if_pos hlength]
  exact Table.mem_refresh.mpr ⟨user, h, hrefresh⟩

/-- A viewer that has fresh exchanges, and is forgotten, was not seen later than those that are kept. -/
theorem prune_earlier {kept : Viewer} (h : user ∈ users) (hrefresh : user.refresh cutoff = some user')
    (hgone : ∀ w ∈ _prune_users users cutoff keep, w.key ≠ user.key) (hkept : kept ∈ _prune_users users cutoff keep) :
    user'.last_seen_at ≤ kept.last_seen_at := by
  have hmem : user' ∈ users.refresh (Viewer.refresh cutoff) refresh_key := Table.mem_refresh.mpr ⟨user, h, hrefresh⟩
  have hkey : user'.key = user.key := refresh_key user user' hrefresh
  obtain ⟨old, -, hold⟩ := mem_prune hkept
  have hnonneg : 0 ≤ kept.last_seen_at := (refresh_spec hold).2.2 ▸ latest_nonneg _
  unfold _prune_users at hgone hkept
  dsimp only at hgone hkept
  split at hgone
  case isTrue => exact absurd hkey (hgone user' hmem)
  case isFalse hover =>
    rw [if_neg hover] at hkept
    obtain ⟨hkept, hnewest⟩ := Table.mem_filter.mp hkept
    obtain ⟨top, htop, hkey'⟩ := mem_map.mp (of_decide_eq_true hnewest)
    have htop_mem := mem_sortBy.mp (mem_of_mem_take htop)
    obtain rfl : top = kept := Table.eq_of_key_eq htop_mem hkept hkey'
    -- the forgotten viewer is not among the first ones
    have hnot : user' ∉ (sortBy (fun user : Viewer => -_safe_epoch user.last_seen_at)
        (users.refresh (Viewer.refresh cutoff) refresh_key).rows).take keep := by
      intro hfirst
      exact hgone user' (Table.mem_filter.mpr ⟨hmem, decide_eq_true (mem_map_of_mem hfirst)⟩) hkey
    have hle := le_of_mem_take keep htop hmem hnot
    simp only [_safe_epoch] at hle
    omega

/-! ## The file -/

/-- A viewer as it is written. -/
structure Kept (caps : Caps) (t : ℤ) (user : Viewer) : Prop where
  nonempty : user.exchanges ≠ []
  capped : user.exchanges.length ≤ caps.exchanges
  seen : user.last_seen_at = latest user.exchanges
  past : ∀ item ∈ user.exchanges, _safe_epoch item.played_at ≤ max 0 t

structure Stored (caps : Caps) (t : ℤ) (users : Users) : Prop where
  few : users.rows.length ≤ caps.users
  viewers : ∀ user ∈ users, Kept caps t user

theorem caps_pos (caps : Caps) : 0 < caps.exchanges := by
  simp only [Caps.exchanges]
  omega

theorem mem_lastOf {x : α} (h : x ∈ lastOf n l) : x ∈ l := mem_of_mem_drop h

theorem length_lastOf (n : ℕ) (l : List α) : (lastOf n l).length ≤ n := by
  rw [lastOf, length_drop]
  omega

theorem lastOf_of_le (h : l.length ≤ n) : lastOf n l = l := by
  rw [lastOf, Nat.sub_eq_zero_of_le h, drop_zero]

theorem mem_lastOf_snoc (hn : 0 < n) (l : List α) (x : α) : x ∈ lastOf n (l ++ [x]) := by
  rw [lastOf, length_append, drop_append_of_le_length (by simp; omega)]
  exact mem_append_right _ mem_cons_self

/-! ## A commit -/

/-- A viewer while a sidecar is committed: what it was when that began, or seen now. -/
structure Alive (caps : Caps) (now : ℤ) (began : Users) (user : Viewer) : Prop where
  nonempty : user.exchanges ≠ []
  capped : user.exchanges.length ≤ caps.exchanges
  fresh : ∀ item ∈ user.exchanges, isFresh (caps.cutoff now) item = true
  past : ∀ item ∈ user.exchanges, _safe_epoch item.played_at ≤ max 0 now
  seen : user.last_seen_at ≤ latest user.exchanges
  origin : (∃ old ∈ began, old.key = user.key ∧ old.last_seen_at ≤ latest user.exchanges) ∨ now ≤ latest user.exchanges

structure Touched (caps : Caps) (now : ℤ) (began : Users) (users : Users) : Prop where
  alive : ∀ user ∈ users, Alive caps now began user
  keys : ∀ old ∈ began, ∃ user ∈ users, user.key = old.key

theorem commitUser_key (user : Viewer) : (commitUser sha256 caps staged now event checked user).1.key = user.key := by
  unfold commitUser
  dsimp only
  split <;> rfl

theorem userOf_key : (userOf staged now users event checked).key = event.key := by
  unfold userOf
  cases hfind : users.find? event.key with
  | none => rfl
  | some user => exact (Table.find?_eq_some.mp hfind).2

/-- The viewer of an event is one of the users, or is new. -/
theorem userOf_cases (staged : StagedPayload) (now : ℤ) (users : Users) (event : StagedEvent) (checked : Checked) :
    userOf staged now users event checked ∈ users ∨ (∀ user ∈ users, user.key ≠ event.key) ∧
      (userOf staged now users event checked).exchanges = [] := by
  unfold userOf
  cases hfind : users.find? event.key with
  | none => exact .inr ⟨Table.find?_eq_none.mp hfind, rfl⟩
  | some user => exact .inl (Table.find?_eq_some.mp hfind).1

/-- An exchange that is stored is not stored again. -/
theorem commitUser_stored (hcapped : user.exchanges.length ≤ caps.exchanges)
    (hfresh : ∀ item ∈ user.exchanges, isFresh (caps.cutoff now) item = true)
    (h : ∃ item ∈ user.exchanges, item.event_id = eventId sha256 staged event) :
    commitUser sha256 caps staged now event checked user = (user, 0) := by
  have hfilter : user.exchanges.filter (isFresh (caps.cutoff now)) = user.exchanges := filter_eq_self.mpr hfresh
  have hany : user.exchanges.any (·.event_id = eventId sha256 staged event) = true := by
    obtain ⟨item, hitem, hid⟩ := h
    exact any_eq_true.mpr ⟨item, hitem, decide_eq_true hid⟩
  unfold commitUser
  rw [hfilter, if_pos hany, lastOf_of_le hcapped]

theorem commitUser_new (checked : Checked)
    (h : ∀ item ∈ user.exchanges.filter (isFresh (caps.cutoff now)), item.event_id ≠ eventId sha256 staged event) :
    (commitUser sha256 caps staged now event checked user).1.exchanges = lastOf caps.exchanges
        (user.exchanges.filter (isFresh (caps.cutoff now)) ++ [exchangeOf sha256 staged now event checked]) ∧
      (commitUser sha256 caps staged now event checked user).1.last_seen_at = now := by
  have hany : ¬ (user.exchanges.filter (isFresh (caps.cutoff now))).any (·.event_id = eventId sha256 staged event) = true := by
    intro hany
    obtain ⟨item, hitem, hid⟩ := any_eq_true.mp hany
    exact h item hitem (of_decide_eq_true hid)
  unfold commitUser
  rw [if_neg hany]
  exact ⟨rfl, rfl⟩

theorem alive_new (hpast : ∀ item ∈ user.exchanges, _safe_epoch item.played_at ≤ max 0 now)
    (h : ∀ item ∈ user.exchanges.filter (isFresh (caps.cutoff now)), item.event_id ≠ eventId sha256 staged event) :
    Alive caps now began (commitUser sha256 caps staged now event checked user).1 := by
  obtain ⟨hexchanges, hseen⟩ := commitUser_new checked h
  have hmem := mem_lastOf_snoc (caps_pos caps) (user.exchanges.filter (isFresh (caps.cutoff now)))
    (exchangeOf sha256 staged now event checked)
  rw [← hexchanges] at hmem
  have hlatest : now ≤ latest (commitUser sha256 caps staged now event checked user).1.exchanges :=
    (le_max_right 0 now).trans (le_latest hmem)
  have hcases : ∀ item ∈ (commitUser sha256 caps staged now event checked user).1.exchanges,
      (item ∈ user.exchanges ∧ isFresh (caps.cutoff now) item = true) ∨ item.played_at = now := by
    intro item hitem
    rw [hexchanges] at hitem
    rcases mem_append.mp (mem_lastOf hitem) with hold | hnew
    · exact .inl (mem_filter.mp hold)
    · rw [mem_singleton.mp hnew]
      exact .inr rfl
  refine ⟨ne_nil_of_mem hmem, hexchanges ▸ length_lastOf _ _, fun item hitem => ?_, fun item hitem => ?_, hseen.trans_le hlatest,
    .inr hlatest⟩
  · rcases hcases item hitem with ⟨-, hfresh⟩ | hnow
    · exact hfresh
    · exact now_fresh caps hnow
  · rcases hcases item hitem with ⟨hold, -⟩ | hnow
    · exact hpast item hold
    · rw [hnow]
      exact le_rfl

theorem alive_commit (h : Alive caps now began user) :
    Alive caps now began (commitUser sha256 caps staged now event checked user).1 := by
  by_cases hstored : ∃ item ∈ user.exchanges, item.event_id = eventId sha256 staged event
  · rw [commitUser_stored h.capped h.fresh hstored]
    exact h
  · exact alive_new h.past fun item hitem hid => hstored ⟨item, (mem_filter.mp hitem).1, hid⟩

theorem touched_user (h : Touched caps now began users) : Touched caps now began
      (users.upsert (commitUser sha256 caps staged now event checked (userOf staged now users event checked)).1) := by
  constructor
  · intro user huser
    rcases Table.mem_upsert.mp huser with rfl | ⟨hmem, -⟩
    · rcases userOf_cases staged now users event checked with hold | ⟨-, hnil⟩
      · exact alive_commit (h.alive _ hold)
      · refine alive_new ?_ ?_ <;> rw [hnil] <;> exact nofun
    · exact h.alive user hmem
  · intro old hold
    obtain ⟨user, huser, hkey⟩ := h.keys old hold
    by_cases hsame : user.key = event.key
    · refine ⟨_, Table.mem_upsert.mpr (.inl rfl), ?_⟩
      rw [commitUser_key, userOf_key, ← hsame, hkey]
    · refine ⟨user, Table.mem_upsert.mpr (.inr ⟨huser, ?_⟩), hkey⟩
      rwa [commitUser_key, userOf_key]

theorem touched_event (h : Touched caps now began s.1) (event : StagedEvent) :
    Touched caps now began (commitEvent u sha256 caps staged now s event).1 := by
  unfold commitEvent
  cases checkEvent u sha256 staged event with
  | none => exact h
  | some checked => exact touched_user h

theorem touched_events (events : List StagedEvent) (h : Touched caps now began s.1) :
    Touched caps now began (events.foldl (commitEvent u sha256 caps staged now) s).1 := by
  induction events generalizing s with
  | nil => exact h
  | cons event events ih => exact ih (touched_event h event)

include h

/-- What is left of a viewer was seen as late as it. -/
theorem latest_refresh : latest user.exchanges ≤ latest user'.exchanges := by
  obtain ⟨hexchanges, hne, -⟩ := refresh_spec h
  refine latest_le (latest_nonneg _) fun item hitem => ?_
  by_cases hfresh : isFresh cutoff item = true
  · exact le_latest (hexchanges ▸ mem_filter.mpr ⟨hitem, hfresh⟩)
  · obtain ⟨kept, hkept⟩ := exists_mem_of_ne_nil _ hne
    have hle := le_latest hkept
    rw [hexchanges] at hkept
    have hcutoff := (mem_filter.mp hkept).2
    simp only [isFresh, decide_eq_true_eq] at hfresh hcutoff
    omega

theorem cutoff_le_latest : cutoff ≤ latest user'.exchanges := by
  obtain ⟨hexchanges, hne, -⟩ := refresh_spec h
  obtain ⟨kept, hkept⟩ := exists_mem_of_ne_nil _ hne
  have hle := le_latest hkept
  rw [hexchanges] at hkept
  have hcutoff := (mem_filter.mp hkept).2
  simp only [isFresh, decide_eq_true_eq] at hcutoff
  omega

omit h

theorem latest_stale (hne : user.exchanges ≠ []) (h : user.refresh cutoff = none) : latest user.exchanges ≤ cutoff := by
  have hstale := refresh_none h
  simp only [isFresh, decide_eq_false_iff_not, not_le] at hstale
  obtain ⟨item, hitem⟩ := exists_mem_of_ne_nil _ hne
  have hpos : 0 ≤ cutoff := by
    have := hstale item hitem
    simp only [_safe_epoch] at this
    omega
  exact latest_le hpos fun item hitem => (hstale item hitem).le

theorem touched_start (h : Stored caps t users) (ht : t ≤ now) :
    Touched caps now (_prune_users users (caps.cutoff now) caps.users) (_prune_users users (caps.cutoff now) caps.users) := by
  refine ⟨fun user huser => ?_, fun old hold => ⟨old, hold, rfl⟩⟩
  obtain ⟨before, hbefore, hrefresh⟩ := mem_prune huser
  obtain ⟨hexchanges, hne, hseen⟩ := refresh_spec hrefresh
  have hkept := h.viewers before hbefore
  refine ⟨hne, ?_, ?_, ?_, hseen.le, .inl ⟨user, huser, rfl, hseen.le⟩⟩
  · rw [hexchanges]
    exact (length_filter_le _ _).trans hkept.capped
  · intro item hitem
    rw [hexchanges] at hitem
    exact (mem_filter.mp hitem).2
  · intro item hitem
    rw [hexchanges] at hitem
    exact (hkept.past item (mem_filter.mp hitem).1).trans (max_le_max le_rfl ht)

theorem touched_commit (h : Stored caps t users) (ht : t ≤ now) :
    Touched caps now (_prune_users users (caps.cutoff now) caps.users) (commitEvents u sha256 caps staged now users).1 :=
  touched_events staged.events (touched_start h ht)

theorem mem_commit : user ∈ (commit_sidecar u sha256 caps staged now users).1 ↔
    user ∈ _prune_users (commitEvents u sha256 caps staged now users).1 (caps.cutoff now) caps.users :=
  Table.mem_arrange (h := sortBy_perm _ _)

theorem stored_commit (h : Stored caps t users) (ht : t ≤ now) :
    Stored caps now (commit_sidecar u sha256 caps staged now users).1 := by
  constructor
  · have hle := length_prune (commitEvents u sha256 caps staged now users).1 (caps.cutoff now) caps.users
    exact (sortBy_perm _ _).length_eq.trans_le hle
  · intro user huser
    obtain ⟨before, hbefore, hrefresh⟩ := mem_prune (mem_commit.mp huser)
    obtain ⟨hexchanges, hne, hseen⟩ := refresh_spec hrefresh
    have halive := (touched_commit h ht).alive before hbefore
    refine ⟨hne, ?_, hseen, fun item hitem => ?_⟩
    · rw [hexchanges]
      exact (length_filter_le _ _).trans halive.capped
    · rw [hexchanges] at hitem
      exact halive.past item (mem_filter.mp hitem).1

/-- A viewer that was alive in the commit, and is forgotten, was not seen later than those that are kept. -/
theorem forgotten_alive (h : Stored caps t users) (ht : t ≤ now)
    (huser : user ∈ (commitEvents u sha256 caps staged now users).1)
    (hgone : ∀ w ∈ (commit_sidecar u sha256 caps staged now users).1, w.key ≠ user.key) :
    ∀ w ∈ (commit_sidecar u sha256 caps staged now users).1, latest user.exchanges ≤ w.last_seen_at := by
  intro w hw
  have halive := (touched_commit h ht).alive user huser
  exact prune_earlier huser (refresh_fresh halive.nonempty halive.fresh) (fun w hw => hgone w (mem_commit.mpr hw)) (mem_commit.mp hw)

/-- A viewer of the file that is forgotten was not seen later than those that are kept. -/
theorem forgotten_stored (h : Stored caps t users) (ht : t ≤ now) (huser : user ∈ users)
    (hgone : ∀ w ∈ (commit_sidecar u sha256 caps staged now users).1, w.key ≠ user.key) :
    ∀ w ∈ (commit_sidecar u sha256 caps staged now users).1, user.last_seen_at ≤ w.last_seen_at := by
  intro w hw
  have hkept := h.viewers user huser
  rw [hkept.seen]
  cases hrefresh : user.refresh (caps.cutoff now) with
  | none =>
    obtain ⟨before, -, hbefore⟩ := mem_prune (mem_commit.mp hw)
    rw [(refresh_spec hbefore).2.2]
    exact (latest_stale hkept.nonempty hrefresh).trans (cutoff_le_latest hbefore)
  | some user' =>
    have hbegan := mem_prune_of_le h.few huser hrefresh
    have hcommit : Touched caps now _ (commitEvents u sha256 caps staged now users).1 := touched_commit h ht
    have hkey := refresh_key user user' hrefresh
    obtain ⟨late, hlate, hlatekey⟩ := hcommit.keys user' hbegan
    have hbound := forgotten_alive h ht hlate (fun w hw => by rw [hlatekey, hkey]; exact hgone w hw) w hw
    refine le_trans ?_ hbound
    rcases (hcommit.alive late hlate).origin with ⟨old, hold, holdkey, hseen⟩ | hnow
    · obtain rfl := Table.eq_of_key_eq hold hbegan (holdkey.trans hlatekey)
      rw [(refresh_spec hrefresh).2.2] at hseen
      exact (latest_refresh hrefresh).trans hseen
    · have hpast : latest user.exchanges ≤ max 0 t := latest_le (le_max_left 0 t) hkept.past
      exact hpast.trans (max_le (latest_nonneg _) (ht.trans hnow))

/-- An exchange of this event is stored under its key. -/
def StoredUnder (sha256 : Text → Text) (staged : StagedPayload) (event : StagedEvent) (users : Users) : Prop :=
  ∃ user ∈ users, user.key = event.key ∧ ∃ item ∈ user.exchanges, item.event_id = eventId sha256 staged event

theorem stored_event (h : Touched caps now began s.1)
    (haccepted : (checkEvent u sha256 staged event).isSome = true) :
    StoredUnder sha256 staged event (commitEvent u sha256 caps staged now s event).1 := by
  obtain ⟨checked, hchecked⟩ := isSome_iff_exists.mp haccepted
  unfold commitEvent
  rw [hchecked]
  refine ⟨_, Table.mem_upsert.mpr (.inl rfl), (commitUser_key _).trans userOf_key, ?_⟩
  generalize huser : userOf staged now s.1 event checked = user
  have hold : user.exchanges.length ≤ caps.exchanges ∧ ∀ item ∈ user.exchanges, isFresh (caps.cutoff now) item = true := by
    rw [← huser]
    rcases userOf_cases staged now s.1 event checked with hmem | ⟨-, hnil⟩
    · exact ⟨(h.alive _ hmem).capped, (h.alive _ hmem).fresh⟩
    · rw [hnil]
      exact ⟨Nat.zero_le _, nofun⟩
  by_cases hstored : ∃ item ∈ user.exchanges, item.event_id = eventId sha256 staged event
  · rw [commitUser_stored hold.1 hold.2 hstored]
    exact hstored
  · obtain ⟨hexchanges, -⟩ := commitUser_new checked
      fun item hitem hid => hstored ⟨item, (mem_filter.mp hitem).1, hid⟩
    rw [hexchanges]
    exact ⟨_, mem_lastOf_snoc (caps_pos caps) _ _, rfl⟩

def SameUsers (users users' : Users) : Prop := ∀ user, user ∈ users ↔ user ∈ users'

/-- An event whose exchange is stored changes nothing. -/
theorem commitEvent_again (h : Touched caps now began began) (hs : SameUsers s.1 began)
    (hstored : (checkEvent u sha256 staged event).isSome = true → StoredUnder sha256 staged event began) :
    SameUsers (commitEvent u sha256 caps staged now s event).1 began ∧ (commitEvent u sha256 caps staged now s event).2 = s.2 := by
  unfold commitEvent
  cases hchecked : checkEvent u sha256 staged event with
  | none => exact ⟨hs, rfl⟩
  | some checked =>
    obtain ⟨user, huser, hkey, hitem⟩ := hstored (by rw [hchecked]; rfl)
    have hfind : userOf staged now s.1 event checked = user := by
      unfold userOf
      rw [Table.find?_eq_some.mpr ⟨(hs user).mpr huser, hkey⟩]
      rfl
    dsimp only
    rw [hfind, commitUser_stored (h.alive user huser).capped (h.alive user huser).fresh hitem]
    refine ⟨fun user' => ?_, rfl⟩
    rw [Table.mem_upsert, hs user']
    constructor
    · rintro (rfl | ⟨hmem, -⟩)
      · exact huser
      · exact hmem
    · intro hmem
      by_cases hsame : user'.key = user.key
      · exact .inl (Table.eq_of_key_eq hmem huser hsame)
      · exact .inr ⟨hmem, hsame⟩

theorem commitEvents_again (h : Touched caps now began began) (events : List StagedEvent)
    (hs : SameUsers s.1 began)
    (hstored : ∀ event ∈ events, (checkEvent u sha256 staged event).isSome = true → StoredUnder sha256 staged event began) :
    SameUsers (events.foldl (commitEvent u sha256 caps staged now) s).1 began ∧
      (events.foldl (commitEvent u sha256 caps staged now) s).2 = s.2 := by
  induction events generalizing s with
  | nil => exact ⟨hs, rfl⟩
  | cons event events ih =>
    obtain ⟨husers, hcount⟩ := commitEvent_again h hs (hstored event mem_cons_self)
    obtain ⟨husers', hcount'⟩ := ih husers fun event hevent => hstored event (mem_cons_of_mem _ hevent)
    exact ⟨husers', hcount'.trans hcount⟩

/-- The exchange of this event is stored under its key, and is not too old. -/
def StillStored (sha256 : Text → Text) (caps : Caps) (staged : StagedPayload) (now : ℤ) (event : StagedEvent) (users : Users) : Prop :=
  ∃ user ∈ users, user.key = event.key ∧ ∃ item ∈ user.exchanges, item.event_id = eventId sha256 staged event ∧
    isFresh (caps.cutoff now) item = true

/-- Nothing was added to any viewer. -/
def NothingAdded (users after : Users) : Prop :=
  ∀ w ∈ after, ∃ user ∈ users, user.key = w.key ∧ w.exchanges.Sublist user.exchanges

theorem commit_again (h : Stored caps t users) (ht : t ≤ now)
    (hstored : ∀ event ∈ staged.events, (checkEvent u sha256 staged event).isSome = true → StillStored sha256 caps staged now event users) :
    (commit_sidecar u sha256 caps staged now users).2 = 0 ∧
      NothingAdded users (commit_sidecar u sha256 caps staged now users).1 := by
  have hpruned : ∀ event ∈ staged.events, (checkEvent u sha256 staged event).isSome = true →
      StoredUnder sha256 staged event (_prune_users users (caps.cutoff now) caps.users) := by
    intro event hevent haccepted
    obtain ⟨user, huser, hkey, item, hitem, hid, hfresh⟩ := hstored event hevent haccepted
    cases hrefresh : user.refresh (caps.cutoff now) with
    | none =>
      rw [refresh_none hrefresh item hitem] at hfresh
      cases hfresh
    | some user' =>
      refine ⟨user', mem_prune_of_le h.few huser hrefresh, (refresh_key user user' hrefresh).trans hkey, item, ?_, hid⟩
      rw [(refresh_spec hrefresh).1]
      exact mem_filter.mpr ⟨hitem, hfresh⟩
  obtain ⟨husers, hcount⟩ := commitEvents_again (u := u) (touched_start h ht) staged.events
    (s := (_prune_users users (caps.cutoff now) caps.users, 0)) (fun _ => Iff.rfl) hpruned
  refine ⟨hcount, fun w hw => ?_⟩
  obtain ⟨late, hlate, hrefresh⟩ := mem_prune (mem_commit.mp hw)
  obtain ⟨user, huser, hrefresh'⟩ := mem_prune ((husers late).mp hlate)
  refine ⟨user, huser, ?_, ?_⟩
  · rw [refresh_key late w hrefresh, refresh_key user late hrefresh']
  · rw [(refresh_spec hrefresh).1, (refresh_spec hrefresh').1]
    exact filter_sublist.trans filter_sublist

/-! ## Runs -/

theorem stored_run (u : Unicode) (sha256 : Text → Text) (caps : Caps) (start : ℤ) (inputs : List CommitInput) :
    Stored caps (Memory.run u sha256 caps start inputs).clock (Memory.run u sha256 caps start inputs).users := by
  have hstep : ∀ (inputs : List CommitInput) (m : Memory), Stored caps m.clock m.users →
      Stored caps (inputs.foldl (Memory.next u sha256 caps) m).clock (inputs.foldl (Memory.next u sha256 caps) m).users := by
    intro inputs
    induction inputs with
    | nil => exact fun m h => h
    | cons input inputs ih =>
      intro m h
      have hlater : m.clock ≤ m.clock + input.elapsed := le_add_of_nonneg_right (Int.natCast_nonneg _)
      exact ih (m.next u sha256 caps input) (stored_commit h hlater)
  exact hstep inputs ⟨Table.empty, start⟩ ⟨Nat.zero_le _, nofun⟩

/-! ## A staged sidecar -/

/-- Who wrote a line: the comment of the line, with the viewer that its row identifies, or that a notice names. -/
def WroteLine (u : Unicode) (sha256 : Text → Text) (cards : Text → Option CardMatch) (lines : List Text) (source : Text)
    (excluded : List Text) (rows : Option (List SidecarRow)) (c : ViewerComment) : Prop :=
  ∃ (i : ℕ) (line : Text), lines[i]? = some line ∧
    parseLine u sha256 cards source excluded true (load_batch_metadata u rows)[i]? line = some c ∧ c.rememberable = true ∧
    c.key = viewer_key u sha256 source c.normalized_name c.stable_id ∧
    (c.kind = .comment → ∃ entry, (load_batch_metadata u rows)[i]? = some entry ∧
      c.stable_id = _clean_metadata_token entry.stable_id 160 ∧ c.stable_id ≠ [])

/-- What shall be of a sidecar that was staged of these comments, when it is committed to these users. -/
structure CommittedWell (u : Unicode) (sha256 : Text → Text) (caps : Caps) (comments : List ViewerComment) (wrote : ViewerComment → Prop)
    (staged : StagedPayload) (now : ℤ) (users : Users) : Prop where
  accepted : ∀ event ∈ staged.events, (checkEvent u sha256 staged event).isSome = true
  /-- The key of an event is the one of the viewer who wrote what it quotes. -/
  writer : ∀ event ∈ staged.events, ∃ c, wrote c ∧ event.key = c.key ∧ Quotes u comments event c
  /-- An event is stored under its key when it is through. -/
  stored : ∀ earlier event rest, staged.events = earlier ++ event :: rest → StoredUnder sha256 staged event
    (commitEvents u sha256 caps { staged with events := earlier ++ [event] } now users).1
  again : (∀ event ∈ staged.events, StillStored sha256 caps staged now event users) →
    (commit_sidecar u sha256 caps staged now users).2 = 0 ∧ NothingAdded users (commit_sidecar u sha256 caps staged now users).1
  few : (commit_sidecar u sha256 caps staged now users).1.rows.length ≤ caps.users
  capped : ∀ user ∈ (commit_sidecar u sha256 caps staged now users).1, user.exchanges.length ≤ caps.exchanges
  /-- Nobody is forgotten who was seen later than one who is kept. -/
  evicted : ∀ user, user ∈ users ∨ user ∈ (commitEvents u sha256 caps staged now users).1 →
    (∀ w ∈ (commit_sidecar u sha256 caps staged now users).1, w.key ≠ user.key) →
    ∀ w ∈ (commit_sidecar u sha256 caps staged now users).1, user.last_seen_at ≤ w.last_seen_at

theorem staged_memory (u : Unicode) (sha256 : Text → Text) (cards : Text → Option CardMatch) (caps : Caps) (start : ℤ)
    (earlier : List CommitInput) (lines : List Text) (reply_text source : Text) (mode : Mode) (excluded : List Text)
    (rows : Option (List SidecarRow)) (batch_hash : Text) (staged_at : ℤ) (elapsed : ℕ) :
    CommittedWell u sha256 caps (parse_batch u sha256 cards lines source excluded rows true)
        (WroteLine u sha256 cards lines source excluded rows)
        (build_staged_payload u sha256 cards lines reply_text source mode excluded rows batch_hash staged_at)
        ((Memory.run u sha256 caps start earlier).clock + elapsed) (Memory.run u sha256 caps start earlier).users ↔
      ∀ c ∈ speakers u (parse_batch u sha256 cards lines source excluded rows true) reply_text,
        NameKept u sha256 source c.normalized_name := by
  have hstored := stored_run u sha256 caps start earlier
  generalize Memory.run u sha256 caps start earlier = m at hstored ⊢
  have hlater : m.clock ≤ m.clock + elapsed := le_add_of_nonneg_right (Int.natCast_nonneg _)
  have hremembered : ∀ c ∈ parse_batch u sha256 cards lines source excluded rows true, c.rememberable = true →
      WroteLine u sha256 cards lines source excluded rows c ∧ ∃ entry, Remembered u sha256 source entry c := by
    intro c hc hremember
    obtain ⟨i, line, hline, hparse⟩ := mem_parse_batch hc
    have h := remembered_line hparse hremember
    exact ⟨⟨i, line, hline, hparse, hremember, h.key, h.row⟩, _, h⟩
  obtain ⟨hevents, hspeakers⟩ := events_about (u := u)
    (fun c hc hremember => (hremembered c hc hremember).2.choose_spec.comment) reply_text
  have hspeaker : ∀ c ∈ speakers u (parse_batch u sha256 cards lines source excluded rows true) reply_text,
      c ∈ parse_batch u sha256 cards lines source excluded rows true ∧ c.rememberable = true := by
    intro c hc
    unfold speakers at hc
    split at hc
    · exact mem_filter.mp (mem_of_mem_head? (mem_toList.mp hc))
    · exact mem_filter.mp hc
  generalize hstaged : build_staged_payload u sha256 cards lines reply_text source mode excluded rows batch_hash staged_at = staged
  have hlist : staged.events = eventsOf u (parse_batch u sha256 cards lines source excluded rows true) reply_text := by
    rw [← hstaged]
    rfl
  rw [← hlist] at hevents hspeakers
  constructor
  · intro hwell c hc
    obtain ⟨event, hevent, habout⟩ := hspeakers c hc
    obtain ⟨entry, h⟩ := (hremembered c (hspeaker c hc).1 (hspeaker c hc).2).2
    exact (accepted_iff h habout staged).mp (hwell.accepted event hevent)
  · intro hnames
    have haccepted : ∀ event ∈ staged.events, (checkEvent u sha256 staged event).isSome = true := by
      intro event hevent
      obtain ⟨c, hc, habout, -⟩ := hevents event hevent
      obtain ⟨entry, h⟩ := (hremembered c (hspeaker c hc).1 (hspeaker c hc).2).2
      exact (accepted_iff h habout staged).mpr (hnames c hc)
    refine ⟨haccepted, fun event hevent => ?_, fun before event rest heq => ?_, fun hstill => ?_, ?_, ?_, ?_⟩
    · obtain ⟨c, hc, habout, hquotes⟩ := hevents event hevent
      exact ⟨c, (hremembered c (hspeaker c hc).1 (hspeaker c hc).2).1, habout.key, hquotes⟩
    · have hmem : event ∈ staged.events := by
        rw [heq]
        exact mem_append_right _ mem_cons_self
      unfold commitEvents
      rw [foldl_append]
      exact stored_event (touched_events before (touched_start hstored hlater)) (haccepted event hmem)
    · exact commit_again hstored hlater fun event hevent _ => hstill event hevent
    · exact (stored_commit hstored hlater).few
    · exact fun user huser => ((stored_commit hstored hlater).viewers user huser).capped
    · rintro user (hfile | hcommit) hgone w hw
      · exact forgotten_stored hstored hlater hfile hgone w hw
      · exact ((touched_commit hstored hlater).alive user hcommit).seen.trans (forgotten_alive hstored hlater hcommit hgone w hw)

/-! ## A name that is normalized twice -/

/-- The standards on letters of ASCII. -/
def asciiUnicode : Unicode where
  nfkc := id
  casefold := List.map fun c => if isCapital c then Char.ofNat (c.toNat + 32) else c
  nfkc_ascii _ _ := rfl
  nfkc_blank _ h := h
  casefold_ascii t h := by
    refine (map_congr_left fun c hc => ?_).trans (map_id t)
    rw [(h c hc).2]
    rfl

def blankRow : SidecarRow :=
  ⟨some 0, "@ x: hi".toList, "twitch".toList, [], ['1'], ['x'], ['@', ' ', 'x'], some []⟩

/-- The name `@ x` is kept with a blank before it, and without it when it is committed: the only event is dropped. -/
theorem blank_name :
    let staged := build_staged_payload asciiUnicode id (fun _ => none) ["@ x: hi".toList] ['o', 'k'] "twitch".toList .main []
      (some [blankRow]) [] 0
    (staged.events.map fun event => (checkEvent asciiUnicode id staged event).isSome) = [false] := by decide

end Docich.ViewerMemory
