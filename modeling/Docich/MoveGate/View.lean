import Docich.Fallible
import Docich.Paired
import Docich.Plain
import Docich.Ranked.Stable

/-!
# Player views

`parsePlayerView` is the reader of the worker, `parse` the reader of the Python module. The first reads numbers as
doubles, so `1.0` is an integer there; the second keeps integers and floats apart.

Which code points have a general category C is a parameter of both.
-/

namespace Docich.MoveGate

open List Ranked

open Ranked (sortBy)
open Fallible (bind_ok)
open Paired (Both both_bind both_bind_self both_bind_eq)

/-! ## Values -/

/-- A text by its code points, lone surrogates among them. -/
abbrev Text := List ℕ

def text (s : List Char) : Text := s.map Char.toNat

/-- A JSON value. A number with a point or an exponent is a float, and none when it is beyond the finite ones. -/
inductive Value
  | null
  | bool (b : Bool)
  | int (n : ℤ)
  | float (x : Option ℚ)
  | string (s : Text)
  | array (l : List Value)
  | object (fields : List (Text × Value))

abbrev Fields := List (Text × Value)

/-- The value of a key; of a repeated key the last one counts. -/
def get (fields : Fields) (key : Text) : Option Value := fields.reverse.lookup key

def keysOf (fields : Fields) : List Text := (fields.map Prod.fst).dedup

inductive ProtocolError
  | invalid_view
  | invalid_color
  | invalid_game_id
  | invalid_move_number
  | invalid_status
  | invalid_pieces
  | invalid_piece
  | invalid_hand
  | invalid_piece_total
  | invalid_clocks
  | invalid_running_clock
  | invalid_fouls
  | invalid_checks
  | invalid_generation
  | invalid_sequence
  | invalid_usi
  | invalid_ack
  | unexpected_game
  | changed_color
  | conflicting_position
  | move_not_ready
  | already_attempted
  deriving DecidableEq

abbrev Result := Except ProtocolError

def check (c : Bool) (code : ProtocolError) : Result Unit := if c then .ok () else .error code

def MAX_INTEGER : ℤ := 2 ^ 53 - 1

/-- `Number.isSafeInteger` -/
def safeInteger : Option Value → Option ℤ
  | some (.int n) => if -MAX_INTEGER ≤ n ∧ n ≤ MAX_INTEGER then some n else none
  | some (.float (some x)) => if x.den = 1 ∧ -MAX_INTEGER ≤ x.num ∧ x.num ≤ MAX_INTEGER then some x.num else none
  | _ => none

/-- `integer` of the worker. -/
def integer (value : Option Value) (code : ProtocolError) (min max : ℤ) : Result ℤ :=
  match safeInteger value with
  | some n => if min ≤ n ∧ n ≤ max then .ok n else .error code
  | none => .error code

/-- `_integer` of the module. -/
def _integer (value : Option Value) (code : ProtocolError) (minimum maximum : ℤ) : Result ℤ :=
  match value with
  | some (.int n) => if minimum ≤ n ∧ n ≤ maximum then .ok n else .error code
  | _ => .error code

/-- A float that the worker takes for an integer. -/
def isWholeFloat : Option Value → Bool
  | some (.float (some x)) => x.den = 1
  | _ => false

variable {value : Option Value}

theorem integer_eq (h : isWholeFloat value = false) (code : ProtocolError) {min max : ℤ}
    (hmin : 0 ≤ min) (hmax : max ≤ MAX_INTEGER) : integer value code min max = _integer value code min max := by
  unfold integer _integer
  match value with
  | some (.int n) =>
    simp only [safeInteger]
    by_cases hn : min ≤ n ∧ n ≤ max
    · rw [if_pos (by omega)]
    · by_cases hsafe : -MAX_INTEGER ≤ n ∧ n ≤ MAX_INTEGER
      · rw [if_pos hsafe]
      · rw [if_neg hsafe, if_neg hn]
  | some (.float (some x)) =>
    have hden : ¬ x.den = 1 := by simpa [isWholeFloat] using h
    simp [safeInteger, hden]
  | some (.float none) => rfl
  | some .null => rfl
  | some (.bool _) => rfl
  | some (.string _) => rfl
  | some (.array _) => rfl
  | some (.object _) => rfl
  | none => rfl

inductive Color
  | sente
  | gote
  deriving DecidableEq

inductive Status
  | playing
  | ended
  deriving DecidableEq

def senteText : Text := text ['s', 'e', 'n', 't', 'e']
def goteText : Text := text ['g', 'o', 't', 'e']
def playingText : Text := text ['p', 'l', 'a', 'y', 'i', 'n', 'g']
def endedText : Text := text ['e', 'n', 'd', 'e', 'd']

def stringOf : Option Value → Option Text
  | some (.string s) => some s
  | _ => none

def colorOf (value : Option Value) : Option Color :=
  if stringOf value = some senteText then some .sente else if stringOf value = some goteText then some .gote else none

def color (value : Option Value) : Result Color :=
  match colorOf value with
  | some c => .ok c
  | none => .error .invalid_color

def status (value : Option Value) : Result Status :=
  if stringOf value = some playingText then .ok .playing
  else if stringOf value = some endedText then .ok .ended
  else .error .invalid_status

/-- `clockNumber`; it is `_clock_number` as well. -/
def clockNumber : Option Value → Result ℚ
  | some (.int n) => if 0 ≤ n ∧ n ≤ MAX_INTEGER then .ok n else .error .invalid_clocks
  | some (.float (some x)) => if 0 ≤ x ∧ x ≤ MAX_INTEGER then .ok x else .error .invalid_clocks
  | _ => .error .invalid_clocks

def boolean : Option Value → Result Bool
  | some (.bool b) => .ok b
  | _ => .error .invalid_checks

/-! ## Game ids -/

/-- Which code points have a general category C. -/
structure Categories where
  other : ℕ → Bool
  control : ∀ c < 0x20, other c = true
  space : other 0x20 = false
  next_line : other 0x85 = true
  byte_order_mark : other 0xFEFF = true

/-- General category Zs. -/
def isSpaceSeparator (c : ℕ) : Bool :=
  c = 0x20 || c = 0xA0 || c = 0x1680 || (0x2000 ≤ c && c ≤ 0x200A) || c = 0x202F || c = 0x205F || c = 0x3000

/-- General categories Zl and Zp. -/
def isLineSeparator (c : ℕ) : Bool := c = 0x2028 || c = 0x2029

/-- What `String.prototype.trim` removes. -/
def isTrimmed (c : ℕ) : Bool := (9 ≤ c && c ≤ 13) || c = 0xFEFF || isSpaceSeparator c || isLineSeparator c

/-- What `str.strip` removes. -/
def isStripped (c : ℕ) : Bool :=
  (9 ≤ c && c ≤ 13) || (0x1C ≤ c && c ≤ 0x1F) || c = 0x85 || isSpaceSeparator c || isLineSeparator c

def strip (p : ℕ → Bool) (s : Text) : Text := ((s.dropWhile p).reverse.dropWhile p).reverse

def utf16Length (s : Text) : ℕ := (s.map fun c => if 0xFFFF < c then 2 else 1).sum

section GameId

variable (cats : Categories)

/-- `gameId` of the worker. -/
def gameId (value : Option Value) : Result Text :=
  match stringOf value with
  | none => .error .invalid_game_id
  | some s =>
    if 1 ≤ utf16Length s ∧ utf16Length s ≤ 128 ∧ s = strip isTrimmed s ∧
        s.any (fun c => cats.other c || isLineSeparator c) = false then .ok s
    else .error .invalid_game_id

/-- `str.isprintable` -/
def isPrintable (c : ℕ) : Bool := c = 0x20 || !(cats.other c || isLineSeparator c || isSpaceSeparator c)

/-- `_game_id` of the module. -/
def _game_id (value : Option Value) : Result Text :=
  match stringOf value with
  | none => .error .invalid_game_id
  | some s =>
    if 1 ≤ s.length ∧ s.length ≤ 128 ∧ s.all (isPrintable cats) = true ∧ s = strip isStripped s then .ok s
    else .error .invalid_game_id

/-- A game id on which the two readers agree: no space but the plain one, and one length for both. -/
def plainGameId (value : Option Value) : Bool :=
  match stringOf value with
  | none => true
  | some s => s.all (fun c => c = 0x20 || !isSpaceSeparator c) && (utf16Length s ≤ 128 || 128 < s.length)

end GameId

theorem dropWhile_congr {p q : ℕ → Bool} {s : Text} (h : ∀ c ∈ s, p c = q c) : s.dropWhile p = s.dropWhile q := by
  induction s with
  | nil => rfl
  | cons c s ih =>
    have hrest := ih fun d hd => h d (mem_cons_of_mem _ hd)
    rw [dropWhile_cons, dropWhile_cons, h c mem_cons_self, hrest]

theorem strip_congr {p q : ℕ → Bool} {s : Text} (h : ∀ c ∈ s, p c = q c) : strip p s = strip q s := by
  have hrest : ∀ c ∈ (s.dropWhile q).reverse, p c = q c := fun c hc =>
    h c ((dropWhile_sublist _).subset (mem_reverse.mp hc))
  unfold strip
  rw [dropWhile_congr h, dropWhile_congr hrest]

theorem length_le_utf16Length (s : Text) : s.length ≤ utf16Length s := by
  induction s with
  | nil => exact Nat.le_refl 0
  | cons c s ih =>
    have hcons : utf16Length (c :: s) = (if 0xFFFF < c then 2 else 1) + utf16Length s := by simp [utf16Length]
    rw [hcons, length_cons]
    split <;> omega

/-- Inside a printable id only the plain space is removed from the ends, by either function. -/
theorem trimmed_eq_stripped (cats : Categories) {c : ℕ} (hc : cats.other c = false) : isTrimmed c = isStripped c := by
  have hcontrol : ¬ c < 0x20 := fun h => by
    rw [cats.control c h] at hc
    cases hc
  have hnext : c ≠ 0x85 := by
    rintro rfl
    rw [cats.next_line] at hc
    cases hc
  have hmark : c ≠ 0xFEFF := by
    rintro rfl
    rw [cats.byte_order_mark] at hc
    cases hc
  have h₁ : (decide (9 ≤ c) && decide (c ≤ 13)) = false := by simp; omega
  have h₂ : (decide (0x1C ≤ c) && decide (c ≤ 0x1F)) = false := by simp; omega
  unfold isTrimmed isStripped
  simp only [h₁, h₂, decide_eq_false hmark, decide_eq_false hnext, Bool.false_or]

/-- Where the plain space is the only one, `isprintable` is the class that the worker tests. -/
theorem isPrintable_eq (cats : Categories) {c : ℕ} (h : c = 0x20 ∨ isSpaceSeparator c = false) :
    isPrintable cats c = !(cats.other c || isLineSeparator c) := by
  unfold isPrintable
  rcases h with rfl | h
  · simp [cats.space, isLineSeparator]
  · by_cases hplain : c = 0x20
    · rw [hplain] at h
      cases h
    · simp [h, hplain]

theorem gameId_eq (cats : Categories) (h : plainGameId value = true) :
    gameId cats value = _game_id cats value := by
  unfold gameId _game_id
  unfold plainGameId at h
  cases hs : stringOf value with
  | none => rfl
  | some s =>
    simp only [hs, Bool.and_eq_true, Bool.or_eq_true, decide_eq_true_eq, all_eq_true, Bool.not_eq_true'] at h
    obtain ⟨hspace, hlength⟩ := h
    have hle := length_le_utf16Length s
    have hpos : 1 ≤ utf16Length s ↔ 1 ≤ s.length := by
      cases s with
      | nil => simp [utf16Length]
      | cons c s =>
        have hcons : (c :: s).length = s.length + 1 := rfl
        omega
    have hshort : utf16Length s ≤ 128 ↔ s.length ≤ 128 := by omega
    have hprintable : s.any (fun c => cats.other c || isLineSeparator c) = false ↔ s.all (isPrintable cats) = true := by
      rw [all_eq_true, any_eq_false]
      refine forall₂_congr fun c hc => ?_
      rw [isPrintable_eq cats (hspace c hc)]
      simp
    have hsame : (1 ≤ utf16Length s ∧ utf16Length s ≤ 128 ∧ s = strip isTrimmed s ∧
        s.any (fun c => cats.other c || isLineSeparator c) = false) ↔
        1 ≤ s.length ∧ s.length ≤ 128 ∧ s.all (isPrintable cats) = true ∧ s = strip isStripped s := by
      rw [hpos, hshort, and_comm (a := s = _), hprintable]
      refine and_congr_right fun _ => and_congr_right fun _ => and_congr_right fun hall => ?_
      rw [strip_congr fun c hc => trimmed_eq_stripped cats ?_]
      have hnone := hprintable.mpr hall
      rw [any_eq_false] at hnone
      have hc' := hnone c hc
      rw [Bool.or_eq_true, not_or] at hc'
      simpa using hc'.1
    simp only [hsame]

/-! ## Pieces -/

def ROLES : List Text := [
  text ['p', 'a', 'w', 'n'], text ['l', 'a', 'n', 'c', 'e'], text ['k', 'n', 'i', 'g', 'h', 't'],
  text ['s', 'i', 'l', 'v', 'e', 'r'], text ['g', 'o', 'l', 'd'], text ['b', 'i', 's', 'h', 'o', 'p'],
  text ['r', 'o', 'o', 'k'], text ['k', 'i', 'n', 'g'], text ['t', 'o', 'k', 'i', 'n'],
  text ['p', 'r', 'o', 'm', 'o', 't', 'e', 'd', 'l', 'a', 'n', 'c', 'e'],
  text ['p', 'r', 'o', 'm', 'o', 't', 'e', 'd', 'k', 'n', 'i', 'g', 'h', 't'],
  text ['p', 'r', 'o', 'm', 'o', 't', 'e', 'd', 's', 'i', 'l', 'v', 'e', 'r'],
  text ['h', 'o', 'r', 's', 'e'], text ['d', 'r', 'a', 'g', 'o', 'n']]

def HAND_ROLES : List Text := ROLES.take 7

def isRank (c : ℕ) : Bool := 'a'.toNat ≤ c && c ≤ 'i'.toNat

def isFile (c : ℕ) : Bool := '1'.toNat ≤ c && c ≤ '9'.toNat

def isSquare : Text → Bool
  | [f, r] => isFile f && isRank r
  | _ => false

def squareKey : Text := text ['s', 'q', 'u', 'a', 'r', 'e']
def roleKey : Text := text ['r', 'o', 'l', 'e']
def ownerKey : Text := text ['o', 'w', 'n', 'e', 'r']
def colorKey : Text := text ['c', 'o', 'l', 'o', 'r']

/-- A square and a role. -/
abbrev Piece := Text × Text

/-- A piece as both readers take it. -/
def readPiece (seen : List Text) (piece : Fields) : Result Piece :=
  match stringOf (get piece squareKey), stringOf (get piece roleKey) with
  | some square, some role =>
    if isSquare square && role ∈ ROLES && square ∉ seen then .ok (square, role) else .error .invalid_piece
  | _, _ => .error .invalid_piece

/-- The worker refuses a piece that names another owner. -/
def owned (yourColor : Color) (piece : Fields) (key : Text) : Bool :=
  match get piece key with
  | none => true
  | some value => colorOf (some value) = some yourColor

def jsPiece (yourColor : Color) (seen : List Text) : Value → Result Piece
  | .object piece => do
    let p ← readPiece seen piece
    check (owned yourColor piece ownerKey && owned yourColor piece colorKey) .invalid_piece
    return p
  | _ => .error .invalid_piece

def pyPiece (seen : List Text) : Value → Result Piece
  | .object piece => readPiece seen piece
  | _ => .error .invalid_piece

/-- The pieces of a list, no square twice. -/
def pieces (read : List Text → Value → Result Piece) (seen : List Text) : List Value → Result (List Piece)
  | [] => .ok []
  | value :: values => do
    let p ← read seen value
    let ps ← pieces read (p.1 :: seen) values
    return p :: ps

def jsPieces (yourColor : Color) (value : Option Value) : Result (List Piece) :=
  match value with
  | some (.array values) =>
    if 40 < values.length then .error .invalid_pieces else pieces (jsPiece yourColor) [] values
  | _ => .error .invalid_pieces

def pyPieces (value : Option Value) : Result (List Piece) :=
  match value with
  | some (.array values) => if 40 < values.length then .error .invalid_pieces else pieces pyPiece [] values
  | _ => .error .invalid_pieces

/-- No piece has an owner or a color. -/
def unowned (value : Option Value) : Bool :=
  match value with
  | some (.array values) => values.all fun value =>
    match value with
    | .object piece => (get piece ownerKey).isNone && (get piece colorKey).isNone
    | _ => true
  | _ => true

variable {seen : List Text}

theorem jsPiece_eq {yourColor : Color} {value : Value} (h : unowned (some (.array [value])) = true) :
    jsPiece yourColor seen value = pyPiece seen value := by
  cases value with
  | object piece =>
    simp only [unowned, all_cons, all_nil, Bool.and_true, Bool.and_eq_true, Option.isNone_iff_eq_none] at h
    simp only [jsPiece, pyPiece, owned, h.1, h.2, Bool.and_true, check, if_true]
    cases readPiece seen piece <;> rfl
  | null | bool | int | float | string | array => rfl

theorem jsPieces_eq {yourColor : Color} (h : unowned value = true) :
    jsPieces yourColor value = pyPieces value := by
  unfold jsPieces pyPieces
  match value with
  | some (.array values) =>
    simp only
    split
    · rfl
    · have hvalues : ∀ seen, pieces (jsPiece yourColor) seen values = pieces pyPiece seen values := by
        clear * - h
        induction values with
        | nil => exact fun _ => rfl
        | cons value values ih =>
          intro seen
          simp only [unowned, all_cons, Bool.and_eq_true] at h ih
          rw [pieces, pieces, jsPiece_eq (by simpa [unowned] using h.1)]
          simp only [ih h.2]
      exact hvalues []
  | some .null | some (.bool _) | some (.int _) | some (.float _) | some (.string _) | some (.object _) | none => rfl

theorem readPiece_new {piece : Fields} {p : Piece} (h : readPiece seen piece = .ok p) : p.1 ∉ seen := by
  unfold readPiece at h
  split at h
  · next square role _ _ =>
    by_cases hok : (isSquare square && role ∈ ROLES && square ∉ seen : Bool) = true
    · rw [if_pos hok] at h
      simp only [Bool.and_eq_true, decide_eq_true_eq] at hok
      rw [← Except.ok.inj h]
      exact hok.2
    · rw [if_neg hok] at h
      cases h
  · cases h

variable {ps : List Piece}

/-- The squares that are read differ from each other. -/
theorem pieces_nodup {values : List Value} (h : pieces pyPiece seen values = .ok ps) :
    (ps.map Prod.fst).Nodup ∧ ∀ p ∈ ps, p.1 ∉ seen := by
  induction values generalizing seen ps with
  | nil =>
    cases h
    exact ⟨nodup_nil, nofun⟩
  | cons value values ih =>
    obtain ⟨p, hp, h⟩ := bind_ok h
    obtain ⟨ps', hps, h⟩ := bind_ok h
    cases h
    obtain ⟨hnodup, hseen⟩ := ih hps
    have hnew : p.1 ∉ seen := by
      cases value with
      | object piece =>
        exact readPiece_new hp
      | null | bool | int | float | string | array => cases hp
    refine ⟨?_, fun q hq => ?_⟩
    · rw [map_cons, nodup_cons]
      refine ⟨fun hmem => ?_, hnodup⟩
      obtain ⟨q, hq, hsame⟩ := mem_map.mp hmem
      exact hseen q hq (hsame ▸ mem_cons_self)
    · rcases mem_cons.mp hq with rfl | hq
      · exact hnew
      · exact fun hmem => hseen q hq (mem_cons_of_mem _ hmem)

/-- With different squares the order by square is the order of the pairs. -/
theorem sortBy_square (h : (ps.map Prod.fst).Nodup) : sortBy Prod.fst ps = sortBy toLex ps := by
  have hne : (sortBy Prod.fst ps).Pairwise fun a b => a.1 ≠ b.1 := by
    have hnodup := ((sortBy_perm Prod.fst ps).map Prod.fst).nodup_iff.mpr h
    exact pairwise_map.mp hnodup
  have hsorted : (sortBy Prod.fst ps).Pairwise fun a b => toLex a ≤ toLex b := by
    refine ((sortBy_pairwise Prod.fst ps).and hne).imp fun hab => ?_
    exact Prod.Lex.toLex_le_toLex.mpr (.inl (lt_of_le_of_ne hab.1 hab.2))
  refine Perm.eq_of_pairwise (fun a b _ _ hab hba => ?_) hsorted (sortBy_pairwise toLex ps)
    ((sortBy_perm _ ps).trans (sortBy_perm _ ps).symm)
  exact toLex.injective (le_antisymm hab hba)

/-- A list of pairs is sorted to one list, whatever its order. -/
theorem sortBy_perm_eq {α β : Type} [LinearOrder α] [LinearOrder β] {l l' : List (α × β)} (h : l.Perm l') :
    sortBy toLex l = sortBy toLex l' := by
  refine Perm.eq_of_pairwise (fun a b _ _ hab hba => ?_) (sortBy_pairwise toLex l)
    (sortBy_pairwise toLex l') ((sortBy_perm _ l).trans (h.trans (sortBy_perm _ l').symm))
  exact toLex.injective (le_antisymm hab hba)

/-! ## Hands -/

/-- A role and how many pieces of it. -/
abbrev Count := Text × ℤ

/-- The counts of the roles that a hand has, in the order of the roles. -/
def jsCounts (hand : Fields) : List Text → Result (List Count)
  | [] => .ok []
  | role :: roles =>
    match get hand role with
    | none => jsCounts hand roles
    | some value => do
      let count ← integer (some value) .invalid_hand 0 40
      let rest ← jsCounts hand roles
      return (role, count) :: rest

def pyCounts (hand : Fields) : List Text → Result (List Count)
  | [] => .ok []
  | role :: roles => do
    let count ← _integer (get hand role) .invalid_hand 0 40
    let rest ← pyCounts hand roles
    return (role, count) :: rest

def jsHand (value : Option Value) : Result (List Count) :=
  match value with
  | some (.object hand) =>
    if (keysOf hand).all (· ∈ HAND_ROLES) then jsCounts hand HAND_ROLES else .error .invalid_hand
  | _ => .error .invalid_hand

def pyHand (value : Option Value) : Result (List Count) :=
  match value with
  | some (.object hand) =>
    if (keysOf hand).all (· ∈ HAND_ROLES) then pyCounts hand (keysOf hand) else .error .invalid_hand
  | _ => .error .invalid_hand

def total (ps : List Piece) (counts : List Count) : ℤ := ps.length + (counts.map Prod.snd).sum

/-- No count is a float that is an integer. -/
def plainHand (value : Option Value) : Bool :=
  match value with
  | some (.object hand) => HAND_ROLES.all fun role => !isWholeFloat (get hand role)
  | _ => true

def countOf (hand : Fields) (role : Text) : Option ℤ :=
  match _integer (get hand role) .invalid_hand 0 40 with
  | .ok n => some n
  | .error _ => none

theorem _integer_count (hand : Fields) (role : Text) :
    _integer (get hand role) .invalid_hand 0 40 =
      match countOf hand role with
      | some n => .ok n
      | none => .error .invalid_hand := by
  have herror : ∀ e, _integer (get hand role) .invalid_hand 0 40 = .error e → e = .invalid_hand := by
    intro e he
    unfold _integer at he
    split at he
    · split at he <;> cases he
      rfl
    · cases he
      rfl
  unfold countOf
  cases h : _integer (get hand role) .invalid_hand 0 40 with
  | ok n => rfl
  | error e => rw [herror e h]

theorem pyCounts_eq (hand : Fields) (roles : List Text) :
    pyCounts hand roles = if roles.all (fun role => (countOf hand role).isSome) then
      .ok (roles.map fun role => (role, (countOf hand role).getD 0)) else .error .invalid_hand := by
  induction roles with
  | nil => rfl
  | cons role roles ih =>
    rw [pyCounts, _integer_count, ih]
    cases hcount : countOf hand role with
    | none => simp [hcount]; rfl
    | some n =>
      by_cases hall : roles.all (fun role => (countOf hand role).isSome) = true
      · simp [hcount, hall]; rfl
      · simp [hcount, hall]; rfl

theorem get_isSome {fields : Fields} {key : Text} : (get fields key).isSome ↔ key ∈ keysOf fields := by
  unfold get keysOf
  rw [mem_dedup, ← mem_reverse, ← map_reverse]
  generalize fields.reverse = l
  induction l with
  | nil => simp
  | cons f l ih =>
    obtain ⟨k, v⟩ := f
    rw [lookup_cons]
    by_cases hk : key = k
    · simp [hk]
    · simp [hk, ih, beq_eq_false_iff_ne.mpr hk]

theorem jsCounts_eq {hand : Fields} {roles : List Text} (h : roles.all (fun role => !isWholeFloat (get hand role)) = true) :
    jsCounts hand roles = pyCounts hand (roles.filter (· ∈ keysOf hand)) := by
  induction roles with
  | nil => rfl
  | cons role roles ih =>
    rw [all_cons, Bool.and_eq_true, Bool.not_eq_true'] at h
    rw [jsCounts]
    cases hvalue : get hand role with
    | none =>
      have hnot : role ∉ keysOf hand := by
        rw [← get_isSome, hvalue]
        simp
      rw [filter_cons_of_neg (by simpa using hnot)]
      exact ih h.2
    | some value =>
      have hin : role ∈ keysOf hand := by
        rw [← get_isSome, hvalue]
        rfl
      rw [filter_cons_of_pos (by simpa using hin), pyCounts, ← ih h.2, hvalue]
      rw [hvalue] at h
      simp only [integer_eq h.1 .invalid_hand (le_refl 0) (show (40 : ℤ) ≤ MAX_INTEGER by decide)]

theorem pyCounts_nonneg {hand : Fields} {roles : List Text} {counts : List Count} (h : pyCounts hand roles = .ok counts) :
    ∀ c ∈ counts, 0 ≤ c.2 := by
  induction roles generalizing counts with
  | nil =>
    cases h
    exact nofun
  | cons role roles ih =>
    obtain ⟨n, hn, h⟩ := bind_ok h
    obtain ⟨rest, hrest, h⟩ := bind_ok h
    cases h
    intro c hc
    rcases mem_cons.mp hc with rfl | hc
    · unfold _integer at hn
      split at hn
      · split at hn
        · next hrange =>
          rw [← Except.ok.inj hn]
          exact hrange.1
        · cases hn
      · cases hn
    · exact ih hrest c hc

theorem hand_roles_nodup : HAND_ROLES.Nodup := by decide

/-- The two readers take the same counts, each in its order. -/
structure SameCounts (counts counts' : List Count) : Prop where
  perm : counts.Perm counts'
  roles : (counts.map Prod.fst).Sublist HAND_ROLES
  nonneg : ∀ c ∈ counts, 0 ≤ c.2

theorem hand_same (h : plainHand value = true) : Both SameCounts (jsHand value) (pyHand value) := by
  unfold jsHand pyHand
  match value with
  | some (.object hand) =>
    simp only
    split
    · next hkeys =>
      have hperm : (HAND_ROLES.filter (· ∈ keysOf hand)).Perm (keysOf hand) := by
        rw [perm_ext_iff_of_nodup (hand_roles_nodup.filter _) (show (keysOf hand).Nodup from nodup_dedup _)]
        intro role
        rw [mem_filter, decide_eq_true_eq]
        exact ⟨fun h => h.2, fun h => ⟨of_decide_eq_true (all_eq_true.mp hkeys role h), h⟩⟩
      have hall : (HAND_ROLES.filter (· ∈ keysOf hand)).all (fun role => (countOf hand role).isSome) =
          (keysOf hand).all (fun role => (countOf hand role).isSome) := hperm.all_eq
      have hnonneg := @pyCounts_nonneg hand (HAND_ROLES.filter (· ∈ keysOf hand))
      rw [jsCounts_eq h, pyCounts_eq hand (keysOf hand), ← hall]
      rw [pyCounts_eq] at hnonneg ⊢
      split
      · next hsome =>
        rw [if_pos hsome] at hnonneg
        refine ⟨hperm.map _, ?_, hnonneg rfl⟩
        rw [map_map]
        exact (map_id'' (fun _ => rfl) _ ▸ filter_sublist)
      · exact rfl
    · exact rfl
  | some .null | some (.bool _) | some (.int _) | some (.float _) | some (.string _) | some (.array _) | none => exact rfl

/-! ## Views -/

structure Clocks where
  senteMs : ℚ
  goteMs : ℚ
  running : Option Color
  serverTime : ℚ

structure Fouls where
  you : ℤ
  opponent : ℤ

/-- The view of the worker. -/
structure View where
  gameId : Text
  yourColor : Color
  yourPieces : List Piece
  yourHand : List Count
  turn : Color
  moveNumber : ℤ
  clocks : Clocks
  fouls : Fouls
  youInCheck : Bool
  opponentInCheck : Bool
  status : Status

/-- The view of the module. -/
structure PlayerView where
  game_id : Text
  color : Color
  pieces : List Piece
  hand : List Count
  turn : Color
  move_number : ℤ
  clocks : Clocks
  fouls : Fouls
  checks : Bool × Bool
  status : Status

def gameIdKey : Text := text ['g', 'a', 'm', 'e', 'I', 'd']
def yourColorKey : Text := text ['y', 'o', 'u', 'r', 'C', 'o', 'l', 'o', 'r']
def turnKey : Text := text ['t', 'u', 'r', 'n']
def moveNumberKey : Text := text ['m', 'o', 'v', 'e', 'N', 'u', 'm', 'b', 'e', 'r']
def statusKey : Text := text ['s', 't', 'a', 't', 'u', 's']
def yourPiecesKey : Text := text ['y', 'o', 'u', 'r', 'P', 'i', 'e', 'c', 'e', 's']
def yourHandKey : Text := text ['y', 'o', 'u', 'r', 'H', 'a', 'n', 'd']
def clocksKey : Text := text ['c', 'l', 'o', 'c', 'k', 's']
def runningKey : Text := text ['r', 'u', 'n', 'n', 'i', 'n', 'g']
def senteMsKey : Text := text ['s', 'e', 'n', 't', 'e', 'M', 's']
def goteMsKey : Text := text ['g', 'o', 't', 'e', 'M', 's']
def serverTimeKey : Text := text ['s', 'e', 'r', 'v', 'e', 'r', 'T', 'i', 'm', 'e']
def foulsKey : Text := text ['f', 'o', 'u', 'l', 's']
def youKey : Text := text ['y', 'o', 'u']
def opponentKey : Text := text ['o', 'p', 'p', 'o', 'n', 'e', 'n', 't']
def youInCheckKey : Text := text ['y', 'o', 'u', 'I', 'n', 'C', 'h', 'e', 'c', 'k']
def opponentInCheckKey : Text := text ['o', 'p', 'p', 'o', 'n', 'e', 'n', 't', 'I', 'n', 'C', 'h', 'e', 'c', 'k']

def fieldsOf (value : Option Value) (code : ProtocolError) : Result Fields :=
  match value with
  | some (.object fields) => .ok fields
  | _ => .error code

/-- The worker wants an ended game to say that no clock runs. -/
def jsRunning (status : Status) (turn : Color) (value : Option Value) : Result (Option Color) :=
  match status with
  | .playing => if colorOf value = some turn then .ok (some turn) else .error .invalid_running_clock
  | .ended =>
    match value with
    | some .null => .ok none
    | _ => .error .invalid_running_clock

def pyRunning (status : Status) (turn : Color) (value : Option Value) : Result (Option Color) :=
  match status with
  | .playing => if colorOf value = some turn then .ok (some turn) else .error .invalid_running_clock
  | .ended =>
    match value with
    | none | some .null => .ok none
    | _ => .error .invalid_running_clock

def parsePlayerView (cats : Categories) (raw : Value) : Result View := do
  let raw ← fieldsOf (some raw) .invalid_view
  let id ← gameId cats (get raw gameIdKey)
  let yourColor ← color (get raw yourColorKey)
  let turn ← color (get raw turnKey)
  let moveNumber ← integer (get raw moveNumberKey) .invalid_move_number 1 MAX_INTEGER
  let status ← status (get raw statusKey)
  let yourPieces ← jsPieces yourColor (get raw yourPiecesKey)
  let counts ← jsHand (get raw yourHandKey)
  check (total yourPieces counts ≤ 40) .invalid_piece_total
  let clock ← fieldsOf (get raw clocksKey) .invalid_clocks
  let running ← jsRunning status turn (get clock runningKey)
  let senteMs ← clockNumber (get clock senteMsKey)
  let goteMs ← clockNumber (get clock goteMsKey)
  let serverTime ← clockNumber (get clock serverTimeKey)
  let foul ← fieldsOf (get raw foulsKey) .invalid_fouls
  let you ← integer (get foul youKey) .invalid_fouls 0 10
  let opponent ← integer (get foul opponentKey) .invalid_fouls 0 10
  let youInCheck ← boolean (get raw youInCheckKey)
  let opponentInCheck ← boolean (get raw opponentInCheckKey)
  return {
    gameId := id
    yourColor := yourColor
    yourPieces := sortBy Prod.fst yourPieces
    yourHand := counts.filter (0 < ·.2)
    turn := turn
    moveNumber := moveNumber
    clocks := ⟨senteMs, goteMs, running, serverTime⟩
    fouls := ⟨you, opponent⟩
    youInCheck := youInCheck
    opponentInCheck := opponentInCheck
    status := status }

def parse (cats : Categories) (raw : Value) : Result PlayerView := do
  let raw ← fieldsOf (some raw) .invalid_view
  let game_id ← _game_id cats (get raw gameIdKey)
  let color' ← color (get raw yourColorKey)
  let turn ← color (get raw turnKey)
  let move_number ← _integer (get raw moveNumberKey) .invalid_move_number 1 MAX_INTEGER
  let status ← status (get raw statusKey)
  let parsed_pieces ← pyPieces (get raw yourPiecesKey)
  let parsed_hand ← pyHand (get raw yourHandKey)
  check (total parsed_pieces parsed_hand ≤ 40) .invalid_piece_total
  let clock ← fieldsOf (get raw clocksKey) .invalid_clocks
  let running ← pyRunning status turn (get clock runningKey)
  let senteMs ← clockNumber (get clock senteMsKey)
  let goteMs ← clockNumber (get clock goteMsKey)
  let serverTime ← clockNumber (get clock serverTimeKey)
  let fouls ← fieldsOf (get raw foulsKey) .invalid_fouls
  let you ← _integer (get fouls youKey) .invalid_fouls 0 10
  let opponent ← _integer (get fouls opponentKey) .invalid_fouls 0 10
  let youInCheck ← boolean (get raw youInCheckKey)
  let opponentInCheck ← boolean (get raw opponentInCheckKey)
  return {
    game_id := game_id
    color := color'
    pieces := sortBy toLex parsed_pieces
    hand := sortBy toLex parsed_hand
    turn := turn
    move_number := move_number
    clocks := ⟨senteMs, goteMs, running, serverTime⟩
    fouls := ⟨you, opponent⟩
    checks := (youInCheck, opponentInCheck)
    status := status }

/-- The two views of one board. The module keeps the counts that are zero. -/
structure SameView (view : View) (view' : PlayerView) : Prop where
  game_id : view.gameId = view'.game_id
  color : view.yourColor = view'.color
  pieces : view.yourPieces = view'.pieces
  turn : view.turn = view'.turn
  move_number : view.moveNumber = view'.move_number
  clocks : view.clocks = view'.clocks
  fouls : view.fouls = view'.fouls
  checks : (view.youInCheck, view.opponentInCheck) = view'.checks
  status : view.status = view'.status
  hand : ∃ counts, view.yourHand = counts.filter (0 < ·.2) ∧ view'.hand = sortBy toLex counts ∧
    (counts.map Prod.fst).Sublist HAND_ROLES ∧ ∀ c ∈ counts, 0 ≤ c.2

/-- An ended game says whether a clock runs. -/
def plainClocks (status clocks : Option Value) : Bool :=
  match clocks with
  | some (.object clock) => stringOf status ≠ some endedText || (get clock runningKey).isSome
  | _ => true

def plainFouls (fouls : Option Value) : Bool :=
  match fouls with
  | some (.object foul) => !isWholeFloat (get foul youKey) && !isWholeFloat (get foul opponentKey)
  | _ => true

/-- A view on which the two readers agree. -/
def plainView (raw : Value) : Bool :=
  match raw with
  | .object raw => plainGameId (get raw gameIdKey) && !isWholeFloat (get raw moveNumberKey) &&
      unowned (get raw yourPiecesKey) && plainHand (get raw yourHandKey) &&
      plainClocks (get raw statusKey) (get raw clocksKey) && plainFouls (get raw foulsKey)
  | _ => true

theorem running_eq {status' : Status} {turn : Color} {raw clock : Fields} (hstatus : status (get raw statusKey) = .ok status')
    (h : plainClocks (get raw statusKey) (some (.object clock)) = true) :
    jsRunning status' turn (get clock runningKey) = pyRunning status' turn (get clock runningKey) := by
  cases status' with
  | playing => rfl
  | ended =>
    have hended : stringOf (get raw statusKey) = some endedText := by
      unfold status at hstatus
      split at hstatus
      · cases hstatus
      · split at hstatus
        · assumption
        · cases hstatus
    have hsome : (get clock runningKey).isSome = true := by simpa [plainClocks, hended] using h
    cases hget : get clock runningKey with
    | none =>
      rw [hget] at hsome
      cases hsome
    | some value => cases value <;> rfl

theorem pyPieces_nodup (h : pyPieces value = .ok ps) : (ps.map Prod.fst).Nodup := by
  unfold pyPieces at h
  split at h
  · split at h
    · cases h
    · exact (pieces_nodup h).1
  · cases h

/-- **Readers.** They refuse a plain view with the same code, or take it as one board. -/
theorem parse_same (cats : Categories) {raw : Value} (h : plainView raw = true) :
    Both SameView (parsePlayerView cats raw) (parse cats raw) := by
  refine both_bind_self _ fun raw' hraw => ?_
  have hobject : raw = .object raw' := by
    cases raw with
    | object fields =>
      cases hraw
      rfl
    | null | bool | int | float | string | array => cases hraw
  subst hobject
  simp only [plainView, Bool.and_eq_true, Bool.not_eq_true'] at h
  obtain ⟨⟨⟨⟨⟨hid, hmove⟩, hpieces⟩, hhand⟩, hclocks⟩, hfouls⟩ := h
  refine both_bind_eq (gameId_eq cats hid) fun id _ => ?_
  refine both_bind_self _ fun yourColor _ => ?_
  refine both_bind_self _ fun turn _ => ?_
  refine both_bind_eq (integer_eq hmove _ (by decide) le_rfl) fun moveNumber _ => ?_
  refine both_bind_self _ fun status' hstatus => ?_
  refine both_bind_eq (jsPieces_eq hpieces) fun ps hps => ?_
  rw [jsPieces_eq hpieces] at hps
  refine both_bind (hand_same hhand) fun counts counts' hcounts => ?_
  have htotal : total ps counts = total ps counts' := by
    unfold total
    rw [(hcounts.perm.map Prod.snd).sum_eq]
  rw [htotal]
  refine both_bind_self _ fun _ _ => ?_
  refine both_bind_self _ fun clock hclock => ?_
  have hclock' : get raw' clocksKey = some (.object clock) := by
    unfold fieldsOf at hclock
    split at hclock
    · next heq =>
      cases hclock
      exact heq
    · cases hclock
  rw [hclock'] at hclocks
  refine both_bind_eq (running_eq hstatus hclocks) fun running _ => ?_
  refine both_bind_self _ fun senteMs _ => ?_
  refine both_bind_self _ fun goteMs _ => ?_
  refine both_bind_self _ fun serverTime _ => ?_
  refine both_bind_self _ fun foul hfoul => ?_
  have hfouls' : isWholeFloat (get foul youKey) = false ∧ isWholeFloat (get foul opponentKey) = false := by
    unfold fieldsOf at hfoul
    split at hfoul
    · next heq =>
      cases hfoul
      rw [heq] at hfouls
      simpa [plainFouls] using hfouls
    · cases hfoul
  refine both_bind_eq (integer_eq hfouls'.1 _ le_rfl (by decide)) fun you _ => ?_
  refine both_bind_eq (integer_eq hfouls'.2 _ le_rfl (by decide)) fun opponent _ => ?_
  refine both_bind_self _ fun youInCheck _ => ?_
  refine both_bind_self _ fun opponentInCheck _ => ?_
  exact {
    game_id := rfl
    color := rfl
    pieces := sortBy_square (pyPieces_nodup hps)
    turn := rfl
    move_number := rfl
    clocks := rfl
    fouls := rfl
    checks := rfl
    status := rfl
    hand := ⟨counts, rfl, sortBy_perm_eq hcounts.perm.symm, hcounts.roles, hcounts.nonneg⟩ }

end Docich.MoveGate
