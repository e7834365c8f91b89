import Docich.Tsuitate.Candidates
import Mathlib.Algebra.BigOperators.Group.List.Basic
import Mathlib.Algebra.Order.Ring.Int
import Mathlib.Algebra.Order.Field.Rat

/-!
# The choice of a move

The pools from which a move is chosen, the scores and priorities within a pool, and the choice. Scores are the rational
numbers that the feature sums denote.
-/

namespace Docich.Tsuitate

def recaptureAgeLimit : ℕ := 2

def pathRiskWeight : ℚ := 1 / 4

def escapeExposureLimit : ℕ := 18

/-! ## Profiles and options -/

structure Features where
  advance : ℚ
  centrality : ℚ
  promotion : ℚ
  drop : ℚ
  kingMove : ℚ
  distance : ℚ
  repeats : ℚ

def Features.toList (f : Features) : List ℚ :=
  [f.advance, f.centrality, f.promotion, f.drop, f.kingMove, f.distance, f.repeats]

inductive Profile
  | legacy (id : String)
  | linear (id : String) (weights : Features) (exploration : ℚ) (weights_le : ∀ w ∈ weights.toList, |w| ≤ 10)
      (exploration_range : 0 ≤ exploration ∧ exploration ≤ 1)

def Profile.id : Profile → String
  | .legacy id => id
  | .linear id _ _ _ _ => id

def Profile.isLegacy : Profile → Bool
  | .legacy _ => true
  | .linear _ _ _ _ _ => false

structure Options where
  profile : Profile
  seed : String
  recentMoves : List Usi
  forbiddenMoves : List Usi
  foulMoves : List Usi

/-- What the pattern of USI moves admits. -/
def Usi.wellFormed : Usi → Bool
  | .move origin destination _ => origin.InBounds ∧ destination.InBounds
  | .drop role destination => role ∈ handRoles ∧ destination.InBounds

def validRecentMoves (raw : List Usi) : List Usi := (raw.drop (raw.length - 64)).filter Usi.wellFormed

/-- The first UTF-16 unit of a character. -/
def charCode (c : Char) : ℕ := if c.toNat < 0x10000 then c.toNat else 0xD800 + (c.toNat - 0x10000) / 0x400

def utf16Length (text : String) : ℕ := (text.toList.map fun c => if c.toNat < 0x10000 then 1 else 2).sum

def hash (text : String) : ℕ := text.toList.foldl (fun value c => (value * 33 + charCode c) % 2 ^ 32) 5381

/-! ## Geometry -/

def length (dx dy : ℤ) : ℕ := max dx.natAbs dy.natAbs

def OnLine (dx dy : ℤ) : Prop := dx = 0 ∨ dy = 0 ∨ dx.natAbs = dy.natAbs

instance (dx dy : ℤ) : Decidable (OnLine dx dy) := inferInstanceAs (Decidable (_ ∨ _))

/-- The squares strictly between a square and the one at an offset. -/
def between (source : Square) (dx dy : ℤ) : List Square :=
  (List.range' 1 (length dx dy - 1)).map fun (step : ℕ) => source.shift (dx.sign * step) (dy.sign * step)

namespace Observation

variable (o : Observation)

def kings : List Piece := o.pieces.filter fun p => p.role = .K

/-- A move that could answer a check of the king: a capture or a block on one of its lines. -/
def responds (king : Square) (c : Candidate) : Bool :=
  let dx := c.usi.destination.file - king.file
  let dy := c.usi.destination.rank - king.rank
  if c.role = .K then true
  else if dx.natAbs = 1 ∧ dy = 2 * forward o.color then !c.usi.isDrop
  else if ¬OnLine dx dy then false
  else (between king dx dy).all fun s => ¬o.Occupied s

def checkResponses (candidates : List Candidate) : List Candidate :=
  match o.kings with
  | [king] => candidates.filter (o.responds king.square)
  | _ => candidates

def exposureWeight (king key : Square) : ℕ :=
  let dx := key.file - king.file
  let dy := key.rank - king.rank
  if ¬OnLine dx dy then 1
  else if (between king dx dy).any fun s => o.Occupied s then 1
  else 2

def exposureRay (king target : Square) (d : ℤ × ℤ) : ℕ → ℕ → ℕ
  | 0, _ => 0
  | n + 1, step =>
    let key := target.shift (d.1 * step) (d.2 * step)
    if ¬key.InBounds ∨ o.Occupied key then 0
    else o.exposureWeight king key + exposureRay king target d n (step + 1)

def escapeExposure (king destination : Square) : ℕ :=
  ((orthogonals ++ diagonals).map fun d => o.exposureRay king destination d 8 1).sum +
    ((orthogonals ++ diagonals ++ [(-1, -2), (1, -2), (-1, 2), (1, 2)]).map fun (d : ℤ × ℤ) =>
      let key := destination.shift d.1 d.2
      if key.InBounds ∧ ¬o.Occupied key then o.exposureWeight king key else 0).sum

/-! ## Pools -/

/-- The paths of the generated moves among the given ones. -/
def rejectedPaths (candidates : List Candidate) (rejected : List Usi) : List Usi :=
  (candidates.filter fun c => c.usi ∈ rejected).map fun c => c.usi.path

/-- The first step of a rejected ray, where it may be tried. -/
def shorter (king : Square) (rejected : List Usi) (paths : List Usi) (c : Candidate) : Option Usi :=
  match c.usi with
  | .drop _ _ => none
  | .move origin destination _ =>
    let dx := destination.file - origin.file
    let dy := destination.rank - origin.rank
    let short := Usi.move origin (origin.shift dx.sign dy.sign) false
    if c.usi ∉ rejected then none
    else if length dx dy < 2 ∨ ¬(movement c.role (forward o.color) false).rays.any fun (d : ℤ × ℤ) =>
        dx = d.1 * length dx dy ∧ dy = d.2 * length dx dy then none
    else if OnLine (origin.file - king.file) (origin.rank - king.rank) then none
    else if short ∈ paths then none
    else some short

def shortRayRetries (candidates : List Candidate) (rejected forbidden : List Usi) : List Candidate :=
  if o.inCheck ≠ some false then []
  else match o.kings with
    | [king] =>
      let adjacent := candidates.filterMap (o.shorter king.square rejected (rejectedPaths candidates rejected))
      candidates.filter fun c => c.usi ∉ forbidden ∧ c.usi.path ∈ adjacent
    | _ => []

variable (opt : Options)

def rejected : List Usi := opt.foulMoves.filter Usi.wellFormed

def forbidden : List Usi :=
  rejected opt ++ opt.forbiddenMoves.filter Usi.wellFormed ++
    if opt.profile.isLegacy then (validRecentMoves opt.recentMoves).getLast?.toList else []

def generated : List Candidate := o.candidatesFor (opt.profile.isLegacy && o.inCheck ≠ some true)

def available : List Candidate :=
  (o.generated opt).filter fun c =>
    c.usi ∉ forbidden opt ∧ c.usi.path ∉ rejectedPaths (o.generated opt) (rejected opt)

def canProbeEscapes : Bool := o.inCheck = some true && o.attemptBudget.all fun n => 1 < n

def escapeCandidates : List Candidate :=
  if o.canProbeEscapes then (o.available opt).filter fun c => c.role = .K else []

def checkedKing : Option Piece := if o.canProbeEscapes then o.pieces.find? fun p => p.role = .K else none

/-- The smallest exposure of an escape is below the limit. -/
def prioritizeEscapes : Bool :=
  match o.checkedKing with
  | none => false
  | some king => (o.escapeCandidates opt).any fun c =>
      o.escapeExposure king.square c.usi.destination < escapeExposureLimit

def escapes : List Candidate := if o.prioritizeEscapes opt then o.escapeCandidates opt else []

def responses : List Candidate :=
  if o.inCheck = some true then o.checkResponses (o.available opt) else o.available opt

def retries : List Candidate := o.shortRayRetries (o.generated opt) (rejected opt) (forbidden opt)

def enemyAge (s : Square) : Option ℕ := (o.knownEnemies.find? fun e => e.square = s).map KnownEnemy.age

/-- A move to a square with fresh capture evidence. -/
def hasEvidence (c : Candidate) : Bool :=
  !c.usi.isDrop && (o.enemyAge c.usi.destination).any fun age => age ≤ recaptureAgeLimit

def recaptures : List Candidate :=
  if o.inCheck = some true then [] else (o.available opt).filter o.hasEvidence

def evidenceResponses : List Candidate :=
  if o.inCheck = some true then (o.responses opt).filter fun c => c.role ≠ .K && o.hasEvidence c else []

def chosenPool : List Candidate :=
  if o.recaptures opt ≠ [] then o.recaptures opt
  else if o.escapes opt ≠ [] then o.evidenceResponses opt ++ o.escapes opt
  else if o.retries opt ≠ [] then o.retries opt
  else if o.responses opt ≠ [] then o.responses opt
  else o.available opt

/-! ## Scores -/

def pathRisk (c : Candidate) : ℚ :=
  match c.usi with
  | .drop _ _ => 0
  | .move origin destination _ =>
    let dx := destination.file - origin.file
    let dy := destination.rank - origin.rank
    if ¬OnLine dx dy ∨ length dx dy < 2 then 0
    else ((between origin dx dy).filter fun s => ¬o.Occupied s).length * pathRiskWeight

def features (c : Candidate) (recentMoves : List Usi) : Features :=
  let (dx, dy, promoted, drop) := match c.usi with
    | .move origin destination promote =>
      (destination.file - origin.file, destination.rank - origin.rank, promote, false)
    | .drop _ _ => (0, 0, false, true)
  { advance := ((dy * forward o.color : ℤ) : ℚ) / 8
    centrality := (4 - ((c.usi.destination.file - 5).natAbs : ℚ)) / 4
    promotion := if promoted then 1 else 0
    drop := if drop then 1 else 0
    kingMove := if c.role = .K then 1 else 0
    distance := (length dx dy : ℚ) / 8
    repeats := if c.usi ∈ recentMoves then 1 else 0 }

def score (c : Candidate) : ℚ :=
  match opt.profile with
  | .legacy _ => 0
  | .linear _ weights _ _ _ =>
    (List.zipWith (· * ·) (o.features c (validRecentMoves opt.recentMoves)).toList weights.toList).sum - o.pathRisk c

structure Scored where
  candidate : Candidate
  score : ℚ
  priority : ℤ

/-- Place in the order of the first keys, larger scores before smaller ones. -/
def placeBy (key : Scored → ℕ) (scored : List Scored) (c : Scored) : ℕ :=
  (scored.insertionSort fun a b => key a < key b ∨ key a = key b ∧ b.score ≤ a.score).findIdx fun a =>
    a.candidate.usi = c.candidate.usi

/-- Drops wait for the path-safe moves to their square. -/
def deferDrops (scored : List Scored) : List Scored :=
  scored.map fun c =>
    if c.candidate.usi.isDrop && scored.any (fun a => !a.candidate.usi.isDrop && a.candidate.role ≠ .K &&
        o.pathRisk a.candidate = 0 && a.candidate.usi.destination = c.candidate.usi.destination) then
      { c with priority := -1 }
    else c

def preferEvidence (scored : List Scored) : List Scored :=
  let isEvidence : Scored → Bool := fun c => c.candidate.usi ∈ (o.evidenceResponses opt).map Candidate.usi
  if o.inCheck = some true ∧ o.evidenceResponses opt ≠ [] then
    let age : Scored → ℕ := fun c => (o.enemyAge c.candidate.usi.destination).getD 0
    scored.map fun c => if isEvidence c then { c with priority := 100 - placeBy age (scored.filter isEvidence) c } else c
  else scored

def deferKing (scored : List Scored) : List Scored :=
  if o.inCheck = some true ∧ ¬o.prioritizeEscapes opt ∧ (o.attemptBudget.all fun n => 3 ≤ n) ∧
      scored.any fun c => c.candidate.role ≠ .K then
    scored.map fun c => if c.candidate.role = .K then { c with priority := -1 } else c
  else scored

def orderEscapes (scored : List Scored) : List Scored :=
  match o.checkedKing with
  | none => scored
  | some king =>
    if o.prioritizeEscapes opt then
      let isKing : Scored → Bool := fun c => c.candidate.role = .K
      let exposure : Scored → ℕ := fun c => o.escapeExposure king.square c.candidate.usi.destination
      scored.map fun c => if isKing c then { c with priority := -placeBy exposure (scored.filter isKing) c } else c
    else scored

def scoredPool (candidates : List Candidate) : List Scored :=
  let scored := candidates.map fun c => (⟨c, o.score opt c, 0⟩ : Scored)
  o.orderEscapes opt (o.deferKing opt (o.preferEvidence opt (o.deferDrops scored)))

/-! ## The choice -/

/-- The members with the largest key. -/
def best {β : Type} [LinearOrder β] (key : Scored → β) (pool : List Scored) : List Scored :=
  pool.filter fun c => pool.all fun a => key a ≤ key c

def explores : Bool :=
  match opt.profile with
  | .legacy _ => true
  | .linear _ _ exploration _ _ => (hash (opt.seed ++ ":explore") : ℚ) / 2 ^ 32 < exploration

def select (candidates : List Candidate) : Option Scored :=
  let pool := best Scored.priority (o.scoredPool opt candidates)
  let pool := if explores opt then pool else best Scored.score pool
  pool[hash opt.seed % pool.length]?

structure Choice where
  usi : Usi
  features : Features
  score : ℚ
  profileId : String
  candidateCount : ℕ

def chooseMove : Option Choice :=
  if o.turn ≠ o.color ∨ o.attemptBudget = some 0 ∨ 512 < utf16Length opt.seed ∨ 4096 < opt.forbiddenMoves.length ∨
      4096 < opt.foulMoves.length then none
  else (o.select opt (o.chosenPool opt)).map fun c =>
    ⟨c.candidate.usi, o.features c.candidate (validRecentMoves opt.recentMoves), c.score, opt.profile.id,
      (o.chosenPool opt).length⟩

end Observation

end Docich.Tsuitate
