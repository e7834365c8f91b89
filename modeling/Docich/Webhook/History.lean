import Docich.Webhook.GameState

/-!
# The history of a seat

- `validate_positions`, `validate_value`: what a valid payload and a stored profile are;
- `Kept`: the invariant of the storage;
- `Advances`: what a transaction changes that issues a move;
- `process_cases`: what a request for a move does.
-/

namespace Docich.Webhook

open List Option

open MoveGate (Value Text Fields text get)

variable {env : Env} {s s' : Storage} {ply : ℕ}

/-! ## Maps -/

section Maps

variable {α β : Type} [DecidableEq α]

theorem put_self (m : α → Option β) (key : α) (value : β) : put m key value key = some value := if_pos rfl

theorem put_of_ne (m : α → Option β) {key k : α} (h : k ≠ key) (value : β) : put m key value k = m k := if_neg h

end Maps

theorem putPositions_of_notMem (m : ℕ → Option Position) {l : List (ℕ × Position)} (h : ply ∉ l.map Prod.fst) :
    putPositions m l ply = m ply := by
  induction l generalizing m with
  | nil => rfl
  | cons p rest ih =>
    rw [map_cons, mem_cons, not_or] at h
    rw [putPositions, ih _ h.2, put_of_ne m h.1]

theorem putPositions_isSome (m : ℕ → Option Position) (l : List (ℕ × Position)) :
    (putPositions m l ply).isSome = true ↔ (m ply).isSome = true ∨ ply ∈ l.map Prod.fst := by
  induction l generalizing m with
  | nil => simp [putPositions]
  | cons p rest ih =>
    rw [putPositions, ih, map_cons, mem_cons]
    by_cases hp : ply = p.1
    · rw [hp, put_self]
      simp
    · rw [put_of_ne m hp]
      simp [hp]

/-! ## Payloads -/

export Fallible (bind_ok)

variable {status : ℕ} {code : Code} {fields : Fields} {value : Value} {position : Position}
    {weights : List ℚ} {p : Profile} {configured : ProfileJson} {bot : Text} {input : ProcessInput}
    {identity : Identity}

theorem require_ok {c : Bool} {a : Unit} (h : require c status code = .ok a) : c = true := by
  cases c with
  | true => rfl
  | false => cases h

theorem parsePositions_plies {plies : List ℕ} {positions : List (ℕ × Position)}
    (h : parsePositions fields plies = .ok positions) : positions.map Prod.fst = plies := by
  induction plies generalizing positions with
  | nil =>
    cases h
    rfl
  | cons index rest ih =>
    rw [parsePositions] at h
    cases hget : get fields (key index) with
    | none =>
      rw [hget] at h
      cases h
    | some value =>
      rw [hget] at h
      obtain ⟨position, -, h⟩ := bind_ok h
      obtain ⟨rest', hrest, h⟩ := bind_ok h
      cases h
      rw [map_cons, ih hrest]

theorem int_range {value : Option Value} {min max n : ℕ} (h : int value min max = some n) : min ≤ n ∧ n ≤ max := by
  unfold int at h
  split at h
  case h_2 => cases h
  split at h
  case isFalse => cases h
  case isTrue hrange =>
    cases h
    omega

variable {payload : WebhookPayload} {outcome : Outcome}

/-- The positions of a valid payload are those of the plies up to its own. -/
theorem validate_positions (h : validateWebhookPayload value = .ok payload) :
    payload.basis.start ≤ payload.ply ∧ payload.ply ≤ 10000 ∧
      payload.positions.map Prod.fst = List.range' payload.basis.start (payload.ply - payload.basis.start + 1) := by
  obtain ⟨identity, -, h⟩ := bind_ok h
  split at h
  case h_2 => cases h
  split at h
  case h_2 => cases h
  split at h
  case h_2 => cases h
  split at h
  case h_2 => cases h
  rename_i ply hply
  split at h
  case h_2 => cases h
  obtain ⟨basis, -, h⟩ := bind_ok h
  obtain ⟨_, hrange, h⟩ := bind_ok h
  obtain ⟨_, -, h⟩ := bind_ok h
  obtain ⟨positions, hpositions, h⟩ := bind_ok h
  cases h
  exact ⟨of_decide_eq_true (require_ok hrange), (int_range hply).2, parsePositions_plies hpositions⟩

theorem parseMove_positions (h : parseMove value = .ok (payload, position)) :
    payload.basis.start ≤ payload.ply ∧ payload.ply ≤ 10000 ∧
      payload.positions.map Prod.fst = List.range' payload.basis.start (payload.ply - payload.basis.start + 1) := by
  obtain ⟨valid, hvalid, h⟩ := bind_ok h
  obtain ⟨current, -, h⟩ := bind_ok h
  cases h
  exact validate_positions hvalid

/-! ## Profiles -/

theorem validateWeights_range {names : List Text}
    (h : validateWeights fields names = some weights) :
    weights.length = names.length ∧ ∀ x ∈ weights, -10 ≤ x ∧ x ≤ 10 := by
  induction names generalizing weights with
  | nil =>
    cases h
    exact ⟨rfl, nofun⟩
  | cons name names ih =>
    rw [validateWeights, mapM_cons] at h
    obtain ⟨x, hx, h⟩ := bind_eq_some_iff.mp h
    obtain ⟨rest, hrest, h⟩ := bind_eq_some_iff.mp h
    cases h
    obtain ⟨hlength, hrange⟩ := ih hrest
    refine ⟨by rw [length_cons, length_cons, hlength], fun y hy => ?_⟩
    rcases mem_cons.mp hy with rfl | hy
    · simpa using (filter_eq_some_iff.mp hx).2
    · exact hrange y hy

theorem mapM_filter {p : ℚ → Bool} {l : List ℚ} (h : ∀ x ∈ l, p x = true) : (l.mapM fun x => (some x).filter p) = some l := by
  induction l with
  | nil => rfl
  | cons x l ih =>
    rw [mapM_cons, ih fun y hy => h y (mem_cons_of_mem x hy), filter_some, if_pos (h x mem_cons_self)]
    rfl

theorem validateWeights_value (hlength : weights.length = 7) (hrange : ∀ x ∈ weights, -10 ≤ x ∧ x ≤ 10) :
    validateWeights (FEATURE_NAMES.zip (weights.map fun x => .float (some x))) FEATURE_NAMES = some weights := by
  match weights, hlength with
  | [a, b, c, d, e, f, g], _ =>
    have hread : validateWeights (FEATURE_NAMES.zip ([a, b, c, d, e, f, g].map fun x => .float (some x))) FEATURE_NAMES =
        [a, b, c, d, e, f, g].mapM fun x => (some x).filter fun x => decide (-10 ≤ x) && decide (x ≤ 10) := rfl
    rw [hread]
    refine mapM_filter fun x hx => ?_
    simpa using hrange x hx

/-- A profile that was stored is read again as it was. -/
theorem validate_value {raw : Value} (h : validateProfile raw = some p) : validateProfile p.value = some p := by
  obtain ⟨fields, -, h⟩ := bind_eq_some_iff.mp h
  obtain ⟨-, -, h⟩ := bind_eq_some_iff.mp h
  obtain ⟨id, hid, h⟩ := bind_eq_some_iff.mp h
  have hname : (some id).filter isProfileId = some id := by
    rw [filter_some, if_pos (filter_eq_some_iff.mp hid).2]
  split at h
  · cases h
    have hread : validateProfile (Profile.value ⟨id, .legacy⟩) =
        ((some id).filter isProfileId).bind fun id => some ⟨id, .legacy⟩ := rfl
    rw [hread, hname]
    rfl
  · obtain ⟨-, -, h⟩ := bind_eq_some_iff.mp h
    obtain ⟨weightFields, -, h⟩ := bind_eq_some_iff.mp h
    obtain ⟨exploration, hexploration, h⟩ := bind_eq_some_iff.mp h
    obtain ⟨weights, hweights, h⟩ := bind_eq_some_iff.mp h
    cases h
    obtain ⟨hlength, hrange⟩ := validateWeights_range hweights
    have hread : validateProfile (Profile.value ⟨id, .linear weights exploration⟩) =
        ((some id).filter isProfileId).bind fun id =>
          ((some exploration).filter fun x => decide (0 ≤ x) && decide (x ≤ 1)).bind fun exploration =>
            (validateWeights (FEATURE_NAMES.zip (weights.map fun x => .float (some x))) FEATURE_NAMES).bind fun weights =>
              some ⟨id, .linear weights exploration⟩ := rfl
    rw [hread, hname, validateWeights_value hlength hrange, filter_some, if_pos (filter_eq_some_iff.mp hexploration).2]
    rfl

theorem validate_configured (h : configuredProfile configured = some p) :
    validateProfile p.value = some p := by
  cases configured with
  | unset => exact validate_value h
  | unreadable => cases h
  | parsed raw => exact validate_value h

/-! ## The invariant of the storage -/

/-- A profile that is stored as it was validated. -/
def StoredProfile (raw : Value) : Prop := ∃ p : Profile, raw = p.value ∧ validateProfile p.value = some p

structure Kept (s : Storage) : Prop where
  /-- The positions of a seat are those up to its last ply. -/
  gapless : ∀ seat ply, (s.position seat ply).isSome = true ↔ ∃ session, s.session seat = some session ∧ ply ≤ session.lastPly
  bound : ∀ seat session, s.session seat = some session → session.lastPly ≤ 10000
  profile : ∀ seat session, s.session seat = some session → StoredProfile session.brainProfile
  game : ∀ game, s.game = some game → StoredProfile game.brainProfile
  archive : ∀ bot archive, s.terminal bot = some archive → archive.botIdHash = bot ∧ ∀ p, archive.positions = some p →
    ∃ session, s.session (p.color, p.seat) = some session ∧ p.throughPly ≤ session.lastPly

theorem kept_empty : Kept Storage.empty where
  gapless seat ply := by simp [Storage.empty]
  bound seat session h := by cases h
  profile seat session h := by cases h
  game game h := by cases h
  archive bot archive h := by cases h

/-! ## Moves -/

def NoMove (outcome : Outcome) : Prop := ∀ move decision, outcome ≠ .move move decision

theorem noMove_refused : NoMove (.refused status code) := nofun

/-- What is changed when a move is issued: the seat goes on, from its last ply to the one of the payload. -/
structure Advances (s : Storage) (bot : Text) (payload : WebhookPayload) (s' : Storage) : Prop where
  running : s.terminal bot = none
  start : payload.basis.start = (s.session payload.seat).elim 0 fun current => current.lastPly + 1
  position : s'.position = fun k => if k = payload.seat then putPositions (s.position k) payload.positions else s.position k
  session : ∃ new, s'.session = put s.session payload.seat new ∧ new.lastPly = payload.ply ∧ StoredProfile new.brainProfile ∧
    ∀ current, s.session payload.seat = some current →
      new.botIdHash = current.botIdHash ∧ new.gameId = current.gameId ∧ new.brainProfile = current.brainProfile
  game : ∀ game, s'.game = some game → StoredProfile game.brainProfile
  receipt : s'.receipt = s.receipt
  terminal : s'.terminal = s.terminal

variable (hs : Kept s)

include hs

theorem initialize_cases {metadata : GameMetadata} {current : Position}
    (hbasis : payload.basis.start = 0) (hsession : s.session payload.seat = none)
    (hrunning : s.terminal bot = none) (h : initialize_ env s payload metadata current configured bot = some (s', outcome)) :
    s' = s ∧ NoMove outcome ∨ (∃ move decision, outcome = .move move decision) ∧ Advances s bot payload s' := by
  unfold initialize_ at h
  dsimp only at h
  split at h
  · cases h
    exact .inl ⟨rfl, noMove_refused⟩
  · rename_i profile hprofile
    have hstored : StoredProfile profile.value := by
      cases hgame : s.game with
      | none =>
        rw [hgame] at hprofile
        exact ⟨profile, rfl, validate_configured hprofile⟩
      | some game =>
        rw [hgame] at hprofile
        exact ⟨profile, rfl, validate_value hprofile⟩
    split at h
    · cases h
    · cases h
      exact .inl ⟨rfl, noMove_refused⟩
    · rename_i move decision _
      cases h
      refine .inr ⟨⟨move, decision, rfl⟩, hrunning, by rw [hbasis, hsession]; rfl, ?_, ⟨_, rfl, rfl, hstored, ?_⟩, ?_,
        rfl, rfl⟩
      · funext k
        by_cases hk : k = payload.seat
        · rw [hk]
        · exact (if_neg hk).trans (if_neg hk).symm
      · intro current hcurrent
        rw [hsession] at hcurrent
        cases hcurrent
      · intro game hgame
        cases hold : s.game with
        | none =>
          rw [hold] at hgame
          cases hgame
          exact hstored
        | some old =>
          rw [hold] at hgame
          cases hgame
          exact hs.game old hold

theorem append_cases {current : Session}
    (hbasis : payload.basis = .base current.lastPly) (hsession : s.session payload.seat = some current)
    (hbot : current.botIdHash = bot) (hrunning : s.terminal bot = none) (h : append_ env s payload position current bot = some (s', outcome)) :
    s' = s ∧ NoMove outcome ∨ (∃ move decision, outcome = .move move decision) ∧ Advances s bot payload s' := by
  obtain ⟨p, hp, hvalid⟩ := hs.profile payload.seat current hsession
  unfold append_ conflicts at h
  rw [hp, hvalid] at h
  dsimp only at h
  split at h
  · cases h
    exact .inl ⟨rfl, noMove_refused⟩
  split at h
  · cases h
    exact .inl ⟨rfl, noMove_refused⟩
  split at h
  · cases h
  · cases h
    exact .inl ⟨rfl, noMove_refused⟩
  · rename_i move decision _
    cases h
    refine .inr ⟨⟨move, decision, rfl⟩, hrunning, by rw [hbasis, hsession]; rfl, ?_, ⟨_, rfl, rfl, ⟨p, rfl, hvalid⟩, ?_⟩, hs.game, rfl, rfl⟩
    · funext k
      by_cases hk : k = payload.seat
      · rw [hk]
      · exact (if_neg hk).trans (if_neg hk).symm
    · intro current' hcurrent
      obtain rfl : current = current' := some.inj (hsession.symm.trans hcurrent)
      exact ⟨hbot.symm, rfl, hp.symm⟩

theorem answer_cases (h : answer env s input payload position = some (s', outcome)) :
    s' = s ∧ NoMove outcome ∨ (∃ move decision, outcome = .move move decision) ∧ Advances s input.botIdHash payload s' := by
  have hrefused : ∀ {code : Code}, conflicts s code = some (s', outcome) → s' = s ∧ NoMove outcome ∨
      (∃ move decision, outcome = .move move decision) ∧ Advances s input.botIdHash payload s' := by
    intro code h
    cases h
    exact .inl ⟨rfl, noMove_refused⟩
  unfold answer at h
  dsimp only at h
  split at h
  case isTrue => exact hrefused h
  case isFalse hended =>
  have hrunning : s.terminal input.botIdHash = none := by simpa using hended
  split at h
  · exact hrefused h
  · rename_i metadata hbasis hsession
    split at h
    · exact hrefused h
    · exact initialize_cases hs (by rw [hbasis]; rfl) hsession hrunning h
  · exact hrefused h
  · rename_i basePly current hbasis hsession
    split at h
    case isTrue => exact hrefused h
    case isFalse =>
    split at h
    case isTrue => exact hrefused h
    case isFalse hbot =>
    split at h
    case isTrue => exact hrefused h
    case isFalse hply =>
    obtain rfl := not_not.mp hply
    exact append_cases hs hbasis hsession (not_not.mp hbot) hrunning h

omit hs

/-! ## Receipts -/

def Unissued (receipt : Option Receipt) : Prop := ∀ r, receipt = some r → NoMove r.outcome

/-- What a request for a move does. -/
inductive ProcessStep (env : Env) (s : Storage) (input : ProcessInput) : Storage → Outcome → Prop
  | refused {outcome : Outcome} (hno : NoMove outcome) : ProcessStep env s input s outcome
  | replayed {identity : Identity} {outcome : Outcome} (hidentity : extractRequestIdentity input.payload = .ok identity)
      (hold : s.receipt (env.digest identity.requestId) = some (receiptOf input identity outcome)) :
      ProcessStep env s input s outcome
  | noted {identity : Identity} {outcome : Outcome} (hnew : Unissued (s.receipt (env.digest identity.requestId))) (hno : NoMove outcome) :
      ProcessStep env s input (putReceipt env s input identity outcome) outcome
  | issued {identity : Identity} {payload : WebhookPayload} {position : Position} {s' : Storage} {move : Text} {decision : Decision}
      (hidentity : extractRequestIdentity input.payload = .ok identity) (hparse : parseMove input.payload = .ok (payload, position))
      (hnew : Unissued (s.receipt (env.digest identity.requestId))) (hadvance : Advances s input.botIdHash payload s') :
      ProcessStep env s input (putReceipt env s' input identity (.move move decision)) (.move move decision)

include hs

theorem fresh_cases (hidentity : extractRequestIdentity input.payload = .ok identity) (hnew : Unissued (s.receipt (env.digest identity.requestId)))
    (h : freshTransaction env s input identity = some (s', outcome)) : ProcessStep env s input s' outcome := by
  unfold freshTransaction at h
  split at h
  · cases h
    exact .noted hnew noMove_refused
  rename_i payload position hparse
  split at h
  · cases h
  rename_i s₁ outcome₁ hdone
  have hcases := answer_cases hs hdone
  split at h
  · rename_i hretried
    cases h
    rcases hcases with ⟨rfl, hno⟩ | ⟨⟨move, decision, rfl⟩, -⟩
    · exact .refused hno
    · cases hretried
  · cases h
    rcases hcases with ⟨rfl, hno⟩ | ⟨⟨move, decision, rfl⟩, hadvance⟩
    · exact .noted hnew hno
    · exact .issued hidentity hparse hnew hadvance

theorem transaction_cases (hidentity : extractRequestIdentity input.payload = .ok identity)
    (h : processTransaction env s input identity = some (s', outcome)) : ProcessStep env s input s' outcome := by
  unfold processTransaction conflicts at h
  split at h
  · rename_i hold
    refine fresh_cases hs hidentity ?_ h
    rw [hold]
    exact nofun
  rename_i old hold
  split at h
  case isTrue =>
    cases h
    exact .refused noMove_refused
  case isFalse hsame =>
  split at h
  case isTrue hmismatch =>
    refine fresh_cases hs hidentity ?_ h
    rw [hold]
    intro r hr
    rw [← some.inj hr, hmismatch]
    exact noMove_refused
  case isFalse =>
  split at h
  case isTrue =>
    cases h
    exact .refused noMove_refused
  case isFalse hbot =>
    cases h
    obtain ⟨hid, hbody⟩ := not_or.mp hsame
    refine .replayed hidentity ?_
    rw [hold, receiptOf, ← not_not.mp hid, ← not_not.mp hbody, ← not_not.mp hbot]

variable (env) in
theorem process_cases (input : ProcessInput) :
    ProcessStep env s input (process env s input).1 (process env s input).2 := by
  unfold process
  cases hidentity : extractRequestIdentity input.payload with
  | error e => exact .refused noMove_refused
  | ok identity =>
    dsimp only [settle]
    cases htransaction : processTransaction env s input identity with
    | none => exact .refused noMove_refused
    | some r => exact transaction_cases hs hidentity htransaction

end Docich.Webhook
