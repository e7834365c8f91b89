import Docich.Durable.Table
import Docich.Fallible
import Docich.Ranked.Stable
import Mathlib.Data.List.MinMax
import Mathlib.Data.Prod.Lex
import Mathlib.Data.String.Basic

/-!
# Reads at a point in time

`ObservationStore` adds a file for each version of an item, with the time from which it is available: that of the clock or
of the fetch, whichever is later. So what is read at a time before the clock stays as it is (`point_in_time`). Instants are
microseconds, which the text form of a moment keeps.
-/

namespace Docich.News.ObservationStore

open Durable Fallible List Ranked

inductive StoreError
  | correctionTargetUnknown
  | storeCorrupt
  | versionExists
  | provenanceInvalid
  | timeOrderInvalid

inductive RevisionKind
  | original
  | revision
  | correction
  deriving DecidableEq

structure Timing where
  originPublishedAt : ℤ
  fetchedAt : ℤ
  availableAt : ℤ
  firstSeenAt : ℤ
  revisionKind : RevisionKind
  supersedes : Option String

structure Provenance extends Timing where
  sourceId : String

abbrev Provenance.Linked (p : Provenance) : Prop :=
  if p.revisionKind = .original then p.supersedes = none else p.supersedes.getD "" ≠ ""

abbrev Provenance.Ordered (p : Provenance) : Prop :=
  p.originPublishedAt ≤ p.fetchedAt ∧ p.fetchedAt ≤ p.availableAt ∧ p.firstSeenAt ≤ p.availableAt

/-- What `__post_init__` lets pass. -/
abbrev Checked : Type := {p : Provenance // p.Linked ∧ p.Ordered}

def Provenance.check (p : Provenance) : Except StoreError Checked :=
  if hl : p.Linked then if ho : p.Ordered then .ok ⟨p, hl, ho⟩ else .error .timeOrderInvalid
  else .error .provenanceInvalid

structure Content where
  versionId : String
  identity : String
  sourceId : String
  sourceItemId : String
  canonicalUrl : String
  title : String
  excerpt : String
  contentDigest : String
  mode : String
  liveEligible : Bool

structure VersionRecord extends Content where
  provenance : Checked

/-- What a file holds. -/
structure VersionDict extends Content, Timing

def VersionRecord.toDict (r : VersionRecord) : VersionDict := ⟨r.toContent, r.provenance.1.toTiming⟩

def fromDict (data : VersionDict) : Except StoreError VersionRecord :=
  match Provenance.check ⟨data.toTiming, data.sourceId⟩ with
  | .ok provenance => .ok ⟨data.toContent, provenance⟩
  | .error _ => .error .storeCorrupt

structure CollectedItem where
  sourceId : String
  sourceItemId : String
  canonicalUrl : String
  title : String
  excerpt : String
  contentDigest : String
  originPublishedAt : ℤ
  fetchedAt : ℤ

def firstChars (n : ℕ) (text : String) : String := String.ofList (text.toList.take n)

/-- The file `<identity>/<digest16>.json`. -/
structure VersionFile where
  identity : String
  digest16 : String
  data : VersionDict

def VersionFile.path (f : VersionFile) : String × String := (f.identity, f.digest16)

def VersionFile.name (f : VersionFile) : String := f.digest16 ++ ".json"

abbrev Files : Type := Table VersionFile.path

/-- `_versions`, in the order of the files' names. -/
def versionsIn (files : Files) (identity : String) : Except StoreError (List VersionRecord) :=
  (order VersionFile.name (files.rows.filter fun f => f.identity = identity)).mapM fun f => fromDict f.data

/-- The order that can be computed. -/
local instance version_order : Preorder (ℤ ×ₗ String) := (@Prod.Lex.instLinearOrder ℤ String Int.instLinearOrder inferInstance).toPreorder

def age (v : VersionRecord) : ℤ ×ₗ String := toLex (v.provenance.1.availableAt, v.versionId)

def versions (files : Files) (identity : String) : Except StoreError (List VersionRecord) :=
  (versionsIn files identity).map (order age)

def availableVersions (files : Files) (identity : String) (at_ : ℤ) : Except StoreError (List VersionRecord) :=
  (versions files identity).map fun vs => vs.filter fun v => v.provenance.1.availableAt ≤ at_

def effectiveVersion (files : Files) (identity : String) (at_ : ℤ) : Except StoreError (Option VersionRecord) :=
  (availableVersions files identity at_).map List.getLast?

/-- The kind of a new version, and what it supersedes. -/
def linkOf (prior : List VersionRecord) : Option String → Except StoreError (RevisionKind × Option String)
  | some target =>
    if prior.any fun v => v.versionId = target then .ok (.correction, some target) else .error .correctionTargetUnknown
  | none =>
    match prior.argmax age with
    | some latest => .ok (.revision, some latest.versionId)
    | none => .ok (.original, none)

structure PersistResult where
  /-- `none` for a redelivery -/
  status : Option RevisionKind
  record : VersionRecord

def VersionRecord.file (r : VersionRecord) : VersionFile := ⟨r.identity, firstChars 16 r.contentDigest, r.toDict⟩

variable (sha256 : String → String)

def identityOf (sourceId sourceItemId : String) : String := firstChars 32 (sha256 (sourceId ++ "\x1f" ++ sourceItemId))

def persist (clock : ℤ) (item : CollectedItem) (correctionOf : Option String) (files : Files) :
    Except StoreError (PersistResult × Files) :=
  let identity := identityOf sha256 item.sourceId item.sourceItemId
  let digest16 := firstChars 16 item.contentDigest
  match files.find? (identity, digest16) with
  | some existing => do
    let record ← fromDict existing.data
    .ok (⟨none, record⟩, files)
  | none => do
    let prior ← versionsIn files identity
    let link ← linkOf prior correctionOf
    let availableAt := max clock item.fetchedAt
    let provenance ← Provenance.check
      ⟨⟨item.originPublishedAt, item.fetchedAt, availableAt, availableAt, link.1, link.2⟩, item.sourceId⟩
    let record : VersionRecord := ⟨⟨identity ++ ":" ++ digest16, identity, item.sourceId, item.sourceItemId, item.canonicalUrl,
      item.title, item.excerpt, item.contentDigest, "paper", false⟩, provenance⟩
    match files.insert? record.file with
    | some files => .ok (⟨some link.1, record⟩, files)
    | none => .error .versionExists

/-- A call of `persist`, in which the process may die before the file is there. -/
structure Call where
  clock : ℤ
  item : CollectedItem
  correctionOf : Option String
  died : Bool

def Call.run (c : Call) (files : Files) : Files :=
  match persist sha256 c.clock c.item c.correctionOf files with
  | .ok (_, files') => if c.died then files else files'
  | .error _ => files

def after (calls : List Call) : Files := calls.foldl (fun files c => c.run sha256 files) .empty

/-! ## What is in the store -/

theorem check_ok (p : Checked) : Provenance.check p.1 = .ok p := (dif_pos p.2.1).trans (dif_pos p.2.2)

theorem fromDict_toDict {r : VersionRecord} (h : r.provenance.1.sourceId = r.sourceId) : fromDict r.toDict = .ok r := by
  obtain ⟨c, ⟨⟨t, _⟩, hp⟩⟩ := r
  obtain rfl : _ = c.sourceId := h
  have hcheck := check_ok ⟨_, hp⟩
  simp only [fromDict, VersionRecord.toDict, hcheck]

def nameOf (r : VersionRecord) : String := r.file.name

/-- The store has the files of some records. -/
def Holds (files : Files) (records : List VersionRecord) : Prop :=
  files.rows = records.map VersionRecord.file ∧ ∀ r ∈ records, r.provenance.1.sourceId = r.sourceId

variable {files files' : Files} {records : List VersionRecord} {sha256}

variable (h : Holds files records)

include h

theorem versionsIn_eq (identity : String) : versionsIn files identity =
    .ok (order nameOf (records.filter fun r => r.identity = identity)) := by
  have hread : ∀ rs : List VersionRecord, (∀ r ∈ rs, r.provenance.1.sourceId = r.sourceId) →
      (rs.map VersionRecord.file).mapM (fun f => fromDict f.data) = .ok rs := by
    intro rs hrs
    induction rs with
    | nil => rfl
    | cons r rs ih =>
      rw [map_cons, mapM_cons, VersionRecord.file, fromDict_toDict (hrs r mem_cons_self),
        ih fun r hr => hrs r (mem_cons_of_mem _ hr)]
      rfl
  have hsort := map_insertionSort (nameOf · ≤ nameOf ·) (VersionFile.name · ≤ VersionFile.name ·) VersionRecord.file
    (records.filter fun r => r.identity = identity) fun _ _ _ _ => Iff.rfl
  rw [versionsIn, h.1, filter_map, order]
  refine (congrArg (List.mapM _) hsort.symm).trans ?_
  exact hread _ fun r hr => h.2 r (mem_of_mem_filter ((perm_insertionSort _ _).mem_iff.mp hr))

theorem availableVersions_eq (identity : String) (at_ : ℤ) :
    availableVersions files identity at_ = .ok (order age (order nameOf
      ((records.filter fun r => r.provenance.1.availableAt ≤ at_).filter fun r => r.identity = identity))) := by
  rw [availableVersions, versions, versionsIn_eq h]
  simp only [Except.map, filter_order, filter_comm]

theorem Holds.insert {r : VersionRecord} (hinsert : files.insert? r.file = some files')
    (hsource : r.provenance.1.sourceId = r.sourceId) : Holds files' (records ++ [r]) := by
  refine ⟨?_, forall_mem_append.mpr ⟨h.2, forall_mem_singleton.mpr hsource⟩⟩
  rw [(Table.insert?_eq_some hinsert).1, h.1, map_append]
  rfl

omit h

theorem persist_holds {clock : ℤ} {item : CollectedItem} {correctionOf : Option String} {result : PersistResult}
    (h : Holds files records) (hok : persist sha256 clock item correctionOf files = .ok (result, files')) :
    ∃ added, Holds files' (records ++ added) ∧ ∀ r ∈ added, clock ≤ r.provenance.1.availableAt := by
  simp only [persist] at hok
  split at hok
  · obtain ⟨_, -, hok⟩ := bind_ok hok
    cases hok
    exact ⟨[], by simpa using h, forall_mem_nil _⟩
  · obtain ⟨_, -, hok⟩ := bind_ok hok
    obtain ⟨_, -, hok⟩ := bind_ok hok
    obtain ⟨provenance, hcheck, hok⟩ := bind_ok hok
    unfold Provenance.check at hcheck
    split_ifs at hcheck
    cases hcheck
    split at hok
    · next hinsert =>
      cases hok
      exact ⟨[_], h.insert hinsert rfl, forall_mem_singleton.mpr (le_max_left clock item.fetchedAt)⟩
    · cases hok

theorem run_holds (c : Call) (h : Holds files records) :
    ∃ added, Holds (c.run sha256 files) (records ++ added) ∧ ∀ r ∈ added, c.clock ≤ r.provenance.1.availableAt := by
  have hsame : ∃ added, Holds files (records ++ added) ∧ ∀ r ∈ added, c.clock ≤ r.provenance.1.availableAt :=
    ⟨[], by simpa using h, nofun⟩
  unfold Call.run
  split
  · next hok =>
    split
    · exact hsame
    · exact persist_holds h hok
  · exact hsame

/-- A run adds versions only, which are available from its clock on at the earliest. -/
theorem foldl_holds (sha256 : String → String) (calls : List Call) (h : Holds files records) :
    ∃ added, Holds (calls.foldl (fun files c => c.run sha256 files) files) (records ++ added) ∧
      ∀ r ∈ added, ∃ c ∈ calls, c.clock ≤ r.provenance.1.availableAt := by
  induction calls generalizing files records with
  | nil => exact ⟨[], by simpa using h, nofun⟩
  | cons c calls ih =>
    obtain ⟨first, hfirst, hclock⟩ := run_holds c h
    obtain ⟨rest, hrest, hclocks⟩ := ih hfirst
    refine ⟨first ++ rest, by rwa [← append_assoc], forall_mem_append.mpr ⟨fun r hr => ?_, fun r hr => ?_⟩⟩
    · exact ⟨c, mem_cons_self, hclock r hr⟩
    · exact (hclocks r hr).imp fun d hd => ⟨mem_cons_of_mem c hd.1, hd.2⟩

/-- No file has changed, and a read at the time finds what it found. -/
def Unchanged (files files' : Files) (identity : String) (at_ : ℤ) : Prop :=
  files.rows <+: files'.rows ∧ ∃ visible,
    availableVersions files identity at_ = .ok visible ∧ effectiveVersion files identity at_ = .ok visible.getLast? ∧
    availableVersions files' identity at_ = .ok visible ∧ effectiveVersion files' identity at_ = .ok visible.getLast?

/-- **Reads never look ahead**: what is read at a time before the clock is read by every later call. -/
theorem point_in_time (sha256 : String → String) (before later : List Call) (now at_ : ℤ)
    (hclock : ∀ c ∈ later, now ≤ c.clock) (hat : at_ < now) (identity : String) :
    Unchanged (after sha256 before) (after sha256 (before ++ later)) identity at_ := by
  have hempty : Holds .empty [] := ⟨rfl, nofun⟩
  obtain ⟨records, hbefore, -⟩ := foldl_holds sha256 before hempty
  obtain ⟨added, hlater, hclocks⟩ := foldl_holds sha256 later hbefore
  rw [← foldl_append] at hlater
  have hnone : added.filter (fun r => r.provenance.1.availableAt ≤ at_) = [] := by
    refine filter_eq_nil_iff.mpr fun r hr => ?_
    obtain ⟨c, hc, hle⟩ := hclocks r hr
    have := hclock c hc
    simp only [decide_eq_true_eq]
    omega
  have hseen := availableVersions_eq hbefore identity at_
  have hvisible := availableVersions_eq hlater identity at_
  rw [filter_append, hnone, append_nil] at hvisible
  refine ⟨⟨added.map VersionRecord.file, ?_⟩, _, hseen, congrArg (Except.map List.getLast?) hseen, hvisible,
    congrArg (Except.map List.getLast?) hvisible⟩
  rw [after, after, hbefore.1, hlater.1, ← map_append]

def itemOf (title digest : String) : CollectedItem := ⟨"fixture", "item-1", "https://news.test/1", title, "", digest, 1, 2⟩

theorem point_in_time_revised :
    let sha256 : String → String := fun _ => "fd036000e9a1ae13b9d8104752aaf6d454bbea65ba194ba74f38ba9a6eb489ef"
    Unchanged (after sha256 [⟨10, itemOf "Plan" "0a1b2c3d4e5f60718293", none, false⟩])
      (after sha256 ([⟨10, itemOf "Plan" "0a1b2c3d4e5f60718293", none, false⟩] ++
        [⟨20, itemOf "New plan" "9f8e7d6c5b4a39281706", none, false⟩])) (firstChars 32 "fd036000e9a1ae13b9d8104752aaf6d454bbea65ba194ba74f38ba9a6eb489ef") 15 :=
  point_in_time _ _ _ 20 15 (by simp) (by decide) _

end Docich.News.ObservationStore
