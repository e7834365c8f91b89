import Docich.Durable.Job
import Docich.Overlay.Lossless

/-!
# The sandbox of free strategies

A call runs one container and keeps a receipt with its name in `sandbox.active` from before the container is created
until it is removed; the next call removes the container that a receipt names. A command of docker can fail, with or
without its effect, and the process can die after any step (`left`).

- every call starts its container when no other is left, and returns a decision when its own is gone;
- a receipt names a container unless the process died between opening it and writing it (`never_leaks`).
-/

namespace Docich.FreeStrategy.Sandbox

open Durable Overlay

abbrev Text : Type := List Char

inductive SandboxError
  | runtimeImageMismatch
  | sandboxInputLimit
  | gvisorRequired
  | resourceLimitsUnavailable
  | runtimeImageUnavailable
  | runtimeImageInvalid
  | invalidCleanupReceipt
  | sandboxCleanupFailed
  -- of a command, of the attached process or of a decoder
  | strategy (code : Text)
  deriving DecidableEq

/-- `docich-paper-[0-9a-f]{32}` -/
abbrev Named (text : Text) : Prop :=
  text.take 13 = "docich-paper-".toList ∧ (text.drop 13).length = 32 ∧
    ∀ c ∈ text.drop 13, c ∈ "0123456789abcdef".toList

/-! ## The host -/

/-- The steps of a call that leave something behind. -/
inductive Stage
  | locked
  | orphanRemoved
  | orphanCleared
  | opened
  | written
  | created
  | removed
  | cleared
  deriving DecidableEq

/-- The receipt, the containers of the sandbox, and the last step. -/
structure Host where
  active : Option Text
  containers : List Text
  stage : Stage

/-- Nothing has run yet. -/
def Host.fresh : Host := ⟨none, [], .locked⟩

/-- How docker answers a command that changes something. -/
inductive Reply
  | done
  | failed (e : SandboxError) (effect : Bool)

/-- The answers to the commands of one removal; a listing fails or tells the truth. -/
structure Removal where
  found : Option SandboxError
  rm : Reply
  remaining : Option SandboxError

/-- Every command is answered correctly. -/
def Removal.Correct (r : Removal) : Prop := r.found = none ∧ r.rm = .done ∧ r.remaining = none

structure Info where
  osType : Text
  runsc : Bool
  memoryLimit : Bool
  pidsLimit : Bool
  cpuCfsQuota : Bool

structure Image where
  volumes : Bool
  abi : Option Text

/-- One call of `run`: what it is given, what docker answers, and the step after which its process dies. -/
structure Call where
  image : Text
  payload : List UInt8
  symbols : List Text
  info : Except SandboxError (Option Info)
  images : Except SandboxError (Option (List Image))
  orphan : Removal
  name : Text
  named : Named name
  create : Reply
  attach : Except SandboxError (List UInt8)
  own : Removal
  dies : Option Stage

/-- The image of the sandbox, and the decoder of decisions. -/
structure DockerSandbox (δ : Type) where
  image : Text
  validateDecision : List UInt8 → List Text → Except SandboxError δ

/-! ## Calls -/

abbrev HostJob := Job Host SandboxError

def step (stage : Stage) (f : Host → Host) : HostJob Unit := Job.txn fun s => .ok ({ f s with stage }, ())

def command (stage : Stage) (f : Host → Host) : Reply → HostJob Unit
  | .done => step stage f
  | .failed e true => step stage f >>= fun _ => Job.throw e
  | .failed e false => Job.throw e

/-- Whether docker lists a container of this name. -/
def listed (name : Text) (error : Option SandboxError) : HostJob Bool :=
  Job.look fun s => error.elim (.ok (decide (name ∈ s.containers))) .error

def Host.rm (name : Text) (s : Host) : Host := { s with containers := s.containers.filter (· ≠ name) }

def Host.receipt (active : Option Text) (s : Host) : Host := { s with active }

def Host.create (name : Text) (s : Host) : Host := { s with containers := name :: s.containers }

def remove (stage : Stage) (r : Removal) (name : Text) : HostJob Unit := do
  let found ← listed name r.found
  (if found then command stage (Host.rm name) r.rm else pure ())
  let remaining ← listed name r.remaining
  (if remaining then Job.throw .sandboxCleanupFailed else pure ())

def preflight (c : Call) : Except SandboxError Unit := do
  match ← c.info with
  | none => throw .gvisorRequired
  | some info =>
    if info.osType ≠ "linux".toList ∨ ¬ info.runsc then throw .gvisorRequired
    if ¬ info.memoryLimit ∨ ¬ info.pidsLimit ∨ ¬ info.cpuCfsQuota then throw .resourceLimitsUnavailable
  match ← c.images with
  | some [image] => if image.volumes ∨ image.abi ≠ some "1".toList then throw .runtimeImageInvalid
  | _ => throw .runtimeImageUnavailable

/-- What is checked before the lock is taken. -/
def checkCall (image : Text) (c : Call) : Except SandboxError Unit := do
  if c.image ≠ image then throw .runtimeImageMismatch
  if 1024 * 1024 < c.payload.length then throw .sandboxInputLimit

/-- Remove the container that the receipt names. -/
def sweep (c : Call) : HostJob Unit := do
  let active ← Job.read Host.active
  match active with
  | none => pure ()
  | some text =>
    if Named (strip text) then do
      remove .orphanRemoved c.orphan (strip text)
      step .orphanCleared (Host.receipt none)
    else
      Job.throw .invalidCleanupReceipt

section Run

variable {δ : Type} (b : DockerSandbox δ)

def execute (c : Call) : HostJob δ := do
  command .created (Host.create c.name) c.create
  let raw ← Job.ofExcept c.attach
  Job.ofExcept (b.validateDecision raw c.symbols)

/-- Run the container under a receipt. Opening the file empties it. -/
def supervise (c : Call) : HostJob δ := do
  step .opened (Host.receipt (some []))
  step .written (Host.receipt (some c.name))
  let decision ← Job.attempt (execute b c)
  remove .removed c.own c.name
  step .cleared (Host.receipt none)
  Job.ofExcept decision

def run (c : Call) : HostJob δ := do
  Job.ofExcept (checkCall b.image c)
  step .locked id
  Job.ofExcept (preflight c)
  sweep c
  supervise b c

/-- The host that a call leaves behind: its process ends, or dies after a step that it gets to. -/
def left (s : Host) (c : Call) : Host :=
  match c.dies with
  | none => (run b c).last s
  | some stage => ((run b c s).1.find? (·.stage = stage)).getD ((run b c).last s)

def after (calls : List Call) : Host := calls.foldl (left b) .fresh

end Run

/-! ## Steps -/

/-- Every container is the one that the receipt names. -/
def Kept (s : Host) : Prop := ∀ name ∈ s.containers, s.active = some name ∧ Named name

/-- The next call can read the receipt. -/
def Clean (s : Host) : Prop := ∀ text, s.active = some text → Named text

/-- The same receipt, and no other containers. -/
def Within (s t : Host) : Prop := t.active = s.active ∧ t.containers ⊆ s.containers

variable {I : Host → Prop} {s t : Host} {Q : Unit → Host → Prop} {F : SandboxError → Host → Prop} {stage : Stage}
  {f : Host → Host} {name : Text} {c : Call}

theorem Within.refl (s : Host) : Within s s := ⟨rfl, List.Subset.refl _⟩

theorem Within.trans {u : Host} (h : Within s t) (hu : Within t u) : Within s u :=
  ⟨hu.1.trans h.1, List.Subset.trans hu.2 h.2⟩

theorem Within.kept (h : Within s t) (hk : Kept s) : Kept t := fun name hn =>
  ⟨h.1.trans (hk name (h.2 hn)).1, (hk name (h.2 hn)).2⟩

theorem Within.clean (h : Within s t) (hc : Clean s) : Clean t := fun text ht => hc text (h.1.symm.trans ht)

theorem kept_of_nil (h : s.containers = []) : Kept s := by
  intro name hn
  rw [h] at hn
  cases hn

theorem clean_of_none (h : s.active = none) : Clean s := by
  intro text ht
  rw [h] at ht
  cases ht

theorem strip_named (h : Named name) : strip name = name := by
  have hblank : ∀ c ∈ name, isSpace c = false := by
    intro c hc
    have hall : ∀ c ∈ "docich-paper-".toList ++ "0123456789abcdef".toList, isSpace c = false := by simp [isSpace]
    rw [← List.take_append_drop 13 name, h.1] at hc
    rcases List.mem_append.mp hc with hc | hc
    · exact hall c (List.mem_append_left _ hc)
    · exact hall c (List.mem_append_right _ (h.2.2 c hc))
  exact strip_of_ends (fun c hc => hblank c (List.mem_of_head? hc)) fun c hc => hblank c (List.mem_of_getLast? hc)

theorem spec_step (hI : I { f s with stage }) (hQ : Q () { f s with stage }) : Job.Spec I s (step stage f) Q F :=
  Job.spec_txn (fun t a h => by cases h; exact ⟨hI, hQ⟩) fun e h => nomatch h

theorem spec_command (r : Reply) (hI : I { f s with stage }) (hQ : Q () { f s with stage })
    (hF : r ≠ .done → ∀ e, F e s ∧ F e { f s with stage }) : Job.Spec I s (command stage f r) Q F := by
  cases r with
  | done => exact spec_step hI hQ
  | failed e effect =>
    cases effect with
    | false => exact Job.spec_throw (hF nofun e).1
    | true => exact Job.spec_bind (Q := fun _ t => t = { f s with stage }) (spec_step hI rfl) fun _ t ht =>
        Job.spec_throw (ht ▸ (hF nofun e).2)

theorem spec_listed {error : Option SandboxError} (hF : error ≠ none → ∀ e, F e s) :
    Job.Spec I s (listed name error) (fun found t => t = s ∧ found = decide (name ∈ s.containers)) F := by
  refine Job.spec_look (fun found h => ⟨rfl, ?_⟩) fun e he => hF ?_ e
  · cases error <;> cases h
    rfl
  · rintro rfl
    cases he

theorem within_rm (name : Text) (stage : Stage) (s : Host) : Within s { Host.rm name s with stage } :=
  ⟨rfl, fun _ h => List.mem_of_mem_filter h⟩

/-- After a removal the container is gone. -/
theorem spec_remove (r : Removal) (name : Text) (hI : ∀ t, Within s t → t.stage = stage → I t) :
    Job.Spec I s (remove stage r name) (fun _ t => Within s t ∧ name ∉ t.containers)
      fun _ t => Within s t ∧ ¬ r.Correct := by
  have hself := Within.refl s
  refine Job.spec_bind (spec_listed fun h _ => ⟨hself, fun hr => h hr.1⟩) ?_
  rintro found u ⟨hu, hfound⟩
  subst u
  refine Job.spec_bind (Q := fun _ t => Within s t ∧ (r.rm = .done → name ∉ t.containers)) ?_ fun _ t ht => ?_
  · split
    case isTrue =>
      refine spec_command r.rm (hI _ (within_rm ..) rfl) ⟨within_rm .., fun _ => by simp [Host.rm]⟩ fun h _ => ?_
      exact ⟨⟨hself, fun hr => h hr.2.1⟩, within_rm .., fun hr => h hr.2.1⟩
    case isFalse h => exact Job.spec_pure ⟨hself, fun _ => of_decide_eq_false (hfound.symm.trans (Bool.not_eq_true _ ▸ h))⟩
  · refine Job.spec_bind (spec_listed fun h _ => ⟨ht.1, fun hr => h hr.2.2⟩) ?_
    rintro remaining u ⟨hu, hremaining⟩
    subst u
    split
    case isTrue h => exact Job.spec_throw ⟨ht.1, fun hr => ht.2 hr.2.1 (of_decide_eq_true (hremaining.symm.trans h))⟩
    case isFalse h => exact Job.spec_pure ⟨ht.1, of_decide_eq_false (hremaining.symm.trans (Bool.not_eq_true _ ▸ h))⟩

/-- A sweep leaves nothing behind; it fails on an unreadable receipt, or with docker. -/
theorem spec_sweep (hs : Kept s) (hI : ∀ t, Within s t → t.stage = .orphanRemoved → I t)
    (hI' : I ⟨none, [], .orphanCleared⟩) :
    Job.Spec I s (sweep c) (fun _ t => t.containers = [] ∧ t.active = none)
      fun _ t => Within s t ∧ ¬ (Clean s ∧ c.orphan.Correct) := by
  refine Job.spec_bind (Q := fun active t => t = s ∧ active = s.active) ?_ ?_
  · exact Job.spec_look (fun _ h => by cases h; exact ⟨rfl, rfl⟩) fun _ h => nomatch h
  rintro active _ ⟨rfl, rfl⟩
  split
  case h_1 hnone =>
    refine Job.spec_pure ⟨List.eq_nil_iff_forall_not_mem.mpr fun name hn => ?_, hnone⟩
    rw [(hs name hn).1] at hnone
    cases hnone
  case h_2 text htext =>
    split
    case isFalse hnamed =>
      refine Job.spec_throw ⟨Within.refl _, fun h => hnamed ?_⟩
      rw [strip_named (h.1 text htext)]
      exact h.1 text htext
    case isTrue hnamed =>
      refine Job.spec_bind ((spec_remove c.orphan (strip text) hI).mono (fun _ _ h => h) ?_) fun _ t ht => ?_
      · exact fun _ t ht => ⟨ht.1, fun h => ht.2 h.2⟩
      have hnil : t.containers = [] := List.eq_nil_iff_forall_not_mem.mpr fun name hn => by
        obtain ⟨hname, hnamed⟩ := hs name (ht.1.2 hn)
        cases htext.symm.trans hname
        exact ht.2 ((strip_named hnamed).symm ▸ hn)
      exact spec_step (by rw [Host.receipt, hnil]; exact hI') ⟨hnil, rfl⟩

/-- The states of a call on a host whose receipt may be readable. -/
structure Inv (c : Call) (readable : Prop) (t : Host) : Prop where
  kept : Kept t
  alone : t.stage = .created → t.containers = [c.name]
  clean : readable → t.stage = .opened ∨ Clean t

variable {δ : Type} {b : DockerSandbox δ} {readable : Prop}

/-- Where a call ends. -/
def Ended (readable : Prop) (t : Host) : Prop := Kept t ∧ (readable → Clean t)

theorem Within.inv (h : Within s t) (hk : Kept s) (hc : readable → Clean s) (ht : t.stage ≠ .created) :
    Inv c readable t :=
  ⟨h.kept hk, fun he => absurd he ht, fun hr => .inr (h.clean (hc hr))⟩

/-- At most the container of the call, under its receipt. -/
def Own (c : Call) (t : Host) : Prop := Within ⟨some c.name, [c.name], .created⟩ t

theorem Own.kept (h : Own c t) : Kept t := Within.kept h fun name hn => by
  rw [List.mem_singleton.mp hn]
  exact ⟨rfl, c.named⟩

theorem Own.clean (h : Own c t) : Clean t := Within.clean h fun _ ht => Option.some.inj ht ▸ c.named

theorem spec_execute (hs : s.containers = []) (hr : s.active = some c.name) :
    Job.Spec (Inv c readable) s (execute b c) (fun _ => Own c) fun _ => Own c := by
  have hbefore : Own c s := ⟨hr, by rw [hs]; exact List.nil_subset _⟩
  have hafter : Own c { Host.create c.name s with stage := .created } :=
    ⟨hr, by rw [Host.create, hs]; exact List.Subset.refl _⟩
  have hI : Inv c readable { Host.create c.name s with stage := .created } :=
    ⟨hafter.kept, fun _ => by rw [Host.create, hs], fun _ => .inr hafter.clean⟩
  refine Job.spec_bind (Q := fun _ => Own c) (spec_command c.create hI hafter fun _ _ => ⟨hbefore, hafter⟩) fun _ t ht => ?_
  exact Job.spec_bind (Job.spec_ofExcept (Q := fun _ => Own c) (fun _ _ => ht) fun _ _ => ht) fun _ t ht =>
    Job.spec_ofExcept (fun _ _ => ht) fun _ _ => ht

theorem spec_supervise (hs : s.containers = []) :
    Job.Spec (Inv c readable) s (supervise b c) (fun _ t => t.containers = [] ∧ Ended readable t)
      fun _ t => Ended readable t := by
  have hnil {t : Host} (ht : t.containers = []) (hc : readable → t.stage = .opened ∨ Clean t)
      (hstage : t.stage ≠ .created) : Inv c readable t := ⟨kept_of_nil ht, fun he => absurd he hstage, hc⟩
  refine Job.spec_bind (Q := fun _ t => t.containers = [])
    (spec_step (hnil hs (fun _ => .inl rfl) nofun) hs) fun _ t ht => ?_
  refine Job.spec_bind (Q := fun _ t => t.containers = [] ∧ t.active = some c.name)
    (spec_step (hnil ht (fun _ => .inr fun text h => Option.some.inj h ▸ c.named) nofun) ⟨ht, rfl⟩) fun _ t ht => ?_
  refine Job.spec_bind (Job.spec_attempt (spec_execute ht.1 ht.2)) fun decision t ht => ?_
  refine Job.spec_bind (Q := fun _ t => t.containers = []) ?_ fun _ t ht => ?_
  · refine (spec_remove c.own c.name fun u hu hstage => hu.inv ht.kept (fun _ => ht.clean) ?_).mono ?_ ?_
    · rw [hstage]
      nofun
    · intro _ u hu
      refine List.eq_nil_iff_forall_not_mem.mpr fun name hn => hu.2 ?_
      rw [← List.mem_singleton.mp (ht.2 (hu.1.2 hn))]
      exact hn
    · exact fun _ u hu => ⟨hu.1.kept ht.kept, fun _ => hu.1.clean ht.clean⟩
  · refine Job.spec_bind (Q := fun _ t => t.containers = [] ∧ Ended readable t)
      (spec_step (hnil ht (fun _ => .inr (clean_of_none rfl)) nofun)
        ⟨ht, kept_of_nil ht, fun _ => clean_of_none rfl⟩) fun _ t ht => ?_
    exact Job.spec_ofExcept (fun _ _ => ht) fun _ _ => ht.2

variable (b)

/-- One call, from any host whose containers its receipt names. -/
theorem spec_run (hs : Kept s) :
    Job.Spec (Inv c (Clean s)) s (run b c) (fun _ t => t.containers = [] ∧ Ended (Clean s) t)
      fun _ t => Ended (Clean s) t := by
  have hend {t : Host} (ht : Within s t) : Ended (Clean s) t := ⟨ht.kept hs, ht.clean⟩
  have hskip (x : Except SandboxError Unit) {t : Host} (ht : Within s t) :
      Job.Spec (Inv c (Clean s)) t (Job.ofExcept x) (fun _ u => Within s u) fun _ u => Ended (Clean s) u :=
    Job.spec_ofExcept (fun _ _ => ht) fun _ _ => hend ht
  refine Job.spec_bind (hskip _ (Within.refl s)) fun _ t ht => ?_
  refine Job.spec_bind (Q := fun _ u => Within s u) (spec_step (Within.inv ht hs id nofun) ht) fun _ t ht => ?_
  refine Job.spec_bind (hskip _ ht) fun _ t ht => ?_
  refine Job.spec_bind ((spec_sweep (ht.kept hs) (fun u hu hstage => ?_) ?_).mono (fun _ _ hu => hu) ?_)
    fun _ t ht => spec_supervise ht.1
  · exact (ht.trans hu).inv hs id (by rw [hstage]; nofun)
  · exact ⟨kept_of_nil rfl, nofun, fun _ => .inr (clean_of_none rfl)⟩
  · exact fun _ u hu => hend (ht.trans hu.1)

/-! ## Runs -/

/-- Only a death between opening the receipt and writing it leaves a receipt that cannot be read. -/
theorem left_spec (hs : Kept s) : Kept (left b s c) ∧
    (Clean s → c.dies ≠ some .opened → Clean (left b s c)) := by
  have hspec := spec_run b (c := c) hs
  have hlast := (hspec.mono (fun _ _ h => h.2) fun _ _ h => h).toEnds.last
  unfold left
  cases hdies : c.dies with
  | none => exact ⟨hlast.1, fun hc _ => hlast.2 hc⟩
  | some stage =>
    dsimp only
    cases hfind : (run b c s).1.find? (·.stage = stage) with
    | none => exact ⟨hlast.1, fun hc _ => hlast.2 hc⟩
    | some t =>
      have ht := hspec.states t (List.mem_of_find?_eq_some hfind)
      have hstage : t.stage = stage := of_decide_eq_true (List.find?_some (p := fun t : Host => decide (t.stage = stage)) hfind)
      exact ⟨ht.kept, fun hc hne => (ht.clean hc).resolve_left fun h => hne (by rw [← hstage, h])⟩

theorem foldl_left (calls : List Call) (hs : Kept s) : Kept (calls.foldl (left b) s) ∧
    (Clean s → (∀ c ∈ calls, c.dies ≠ some .opened) → Clean (calls.foldl (left b) s)) := by
  induction calls generalizing s with
  | nil => exact ⟨hs, fun hc _ => hc⟩
  | cons c calls ih =>
    have hleft := left_spec b (c := c) hs
    refine ⟨(ih hleft.1).1, fun hc hdies => (ih hleft.1).2 (hleft.2 hc ?_) fun d hd => ?_⟩
    · exact hdies c List.mem_cons_self
    · exact hdies d (List.mem_cons_of_mem _ hd)

theorem kept_fresh : Kept .fresh := kept_of_nil rfl

theorem clean_fresh : Clean .fresh := clean_of_none rfl

/-- The work of a call does not see the receipt it finds. -/
theorem supervise_congr (h : s.containers = t.containers) :
    supervise b c s = supervise b c t := by
  have hopened : step .opened (Host.receipt (some [])) s = step .opened (Host.receipt (some [])) t := by
    simp only [step, Job.txn, Host.receipt, h]
  unfold supervise
  rw [Job.bind_of_ok (a := ()) rfl, Job.bind_of_ok (a := ()) rfl, Job.last, hopened]
  rfl

/-- What a call answers where nothing is left behind. -/
def verdict (c : Call) : Except SandboxError δ := do
  checkCall b.image c
  preflight c
  (supervise b c .fresh).2

theorem run_eq_verdict (hs : Kept s) (hc : Clean s) (h : c.orphan.Correct) :
    (run b c s).2 = verdict b c := by
  unfold run verdict
  rw [Job.ofExcept_bind]
  cases checkCall b.image c with
  | error e => rfl
  | ok _ =>
    rw [Job.bind_of_ok (a := ()) rfl, Job.ofExcept_bind]
    cases preflight c with
    | error e => rfl
    | ok _ =>
      have hsweep := spec_sweep (s := (step .locked id).last s) (c := c) (I := fun _ => True) hs
        (fun _ _ _ => trivial) trivial
      cases hr : (sweep c ((step .locked id).last s)).2 with
      | error e => exact absurd ⟨hc, h⟩ (hsweep.error e hr).2
      | ok u =>
        rw [Job.bind_of_ok hr, supervise_congr b (t := .fresh) (hsweep.result u hr).1]
        rfl

/-- A call starts its container when no other is left, and decides when its own is gone. Unless a process died between
opening the receipt and writing it, a call whose removals docker answers is not refused for what was left behind. -/
theorem never_leaks (calls : List Call) (c : Call) :
    (∀ t ∈ (run b c (after b calls)).1, t.stage = .created → t.containers = [c.name]) ∧
    (∀ decision, (run b c (after b calls)).2 = .ok decision → ((run b c).last (after b calls)).containers = []) ∧
    ((∀ d ∈ calls, d.dies ≠ some .opened) → c.orphan.Correct →
      (run b c (after b calls)).2 = (run b c .fresh).2) := by
  obtain ⟨hkept, hclean⟩ := foldl_left b calls kept_fresh
  have hspec := spec_run b (c := c) hkept
  refine ⟨fun t ht => (hspec.states t ht).alone, fun decision h => (hspec.result decision h).1, fun hdies h => ?_⟩
  rw [after, run_eq_verdict b hkept (hclean clean_fresh hdies) h, run_eq_verdict b kept_fresh clean_fresh h]

/-! ## A crash -/

/-- A sandbox whose decoder takes every output. -/
def echoBox : DockerSandbox (List UInt8) := ⟨[], fun raw _ => .ok raw⟩

/-- A call that docker answers. -/
def echoCall (digit : Char) (named : Named ("docich-paper-".toList ++ List.replicate 32 digit)) (dies : Option Stage) :
    Call where
  image := []
  payload := []
  symbols := []
  info := .ok (some ⟨"linux".toList, true, true, true, true⟩)
  images := .ok (some [⟨false, some "1".toList⟩])
  orphan := ⟨none, .done, none⟩
  name := "docich-paper-".toList ++ List.replicate 32 digit
  named := named
  create := .done
  attach := .ok [7]
  own := ⟨none, .done, none⟩
  dies := dies

/-- The container of a call that died is removed. -/
theorem never_leaks_created :
    (run echoBox (echoCall '1' (by simp [Named]) none) (after echoBox [echoCall '0' (by simp [Named]) (some .created)])).2 =
      (run echoBox (echoCall '1' (by simp [Named]) none) .fresh).2 :=
  (never_leaks echoBox [echoCall '0' (by simp [Named]) (some .created)] (echoCall '1' (by simp [Named]) none)).2.2
    (by simp [echoCall]) ⟨rfl, rfl, rfl⟩

/-- After a death right after the receipt was opened a call is refused though docker answers. -/
theorem wedged_opened : (echoCall '1' (by simp [Named]) none).orphan.Correct ∧
    (run echoBox (echoCall '1' (by simp [Named]) none) .fresh).2 = .ok [7] ∧
    (run echoBox (echoCall '1' (by simp [Named]) none) (after echoBox [echoCall '0' (by simp [Named]) (some .opened)])).2 =
      .error .invalidCleanupReceipt := by
  exact ⟨⟨rfl, rfl, rfl⟩, rfl, rfl⟩

end Docich.FreeStrategy.Sandbox
