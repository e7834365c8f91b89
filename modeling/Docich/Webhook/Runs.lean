import Docich.Webhook.History

/-!
# Runs of requests

- `Later`: what no request changes, and `later_after` for runs;
- `Accounted`: the moves behind the receipts;
- `readAll`: an export that is followed through its pages;
- `history_kept`: every run.
-/

namespace Docich.Webhook

open List Option

open MoveGate (Value Text Fields text get)

variable {env : Env} {s s' : Storage} {ply : ℕ}

/-! ## What is kept from one state to a later one -/

/-- The session of a seat goes on. -/
structure Continues (a b : Session) : Prop where
  botIdHash : b.botIdHash = a.botIdHash
  gameId : b.gameId = a.gameId
  brainProfile : b.brainProfile = a.brainProfile
  lastPly : b = a ∨ a.lastPly < b.lastPly

theorem Continues.refl (a : Session) : Continues a a := ⟨rfl, rfl, rfl, .inl rfl⟩

theorem Continues.trans {a b c : Session} (h : Continues a b) (h' : Continues b c) : Continues a c := by
  refine ⟨h'.botIdHash.trans h.botIdHash, h'.gameId.trans h.gameId, h'.brainProfile.trans h.brainProfile, ?_⟩
  rcases h'.lastPly with rfl | hlt'
  · exact h.lastPly
  · rcases h.lastPly with rfl | hlt
    · exact .inr hlt'
    · exact .inr (hlt.trans hlt')

structure Later (s s' : Storage) : Prop where
  session : ∀ seat a, s.session seat = some a → ∃ b, s'.session seat = some b ∧ Continues a b
  position : ∀ seat ply p, s.position seat ply = some p → s'.position seat ply = some p
  receipt : ∀ k r move decision, s.receipt k = some r → r.outcome = .move move decision → s'.receipt k = some r
  terminal : ∀ bot a, s.terminal bot = some a → ∃ b, s'.terminal bot = some b ∧ b.gameId = a.gameId ∧ b.positions = a.positions

theorem Later.refl (s : Storage) : Later s s :=
  ⟨fun _ a h => ⟨a, h, .refl a⟩, fun _ _ _ h => h, fun _ _ _ _ h _ => h, fun _ a h => ⟨a, h, rfl, rfl⟩⟩

theorem Later.trans {s₁ s₂ s₃ : Storage} (h : Later s₁ s₂) (h' : Later s₂ s₃) : Later s₁ s₃ := by
  refine ⟨fun seat a ha => ?_, fun seat ply p hp => h'.position seat ply p (h.position seat ply p hp),
    fun k r move decision hr hmove => h'.receipt k r move decision (h.receipt k r move decision hr hmove) hmove, fun bot a ha => ?_⟩
  · obtain ⟨b, hb, hab⟩ := h.session seat a ha
    obtain ⟨c, hc, hbc⟩ := h'.session seat b hb
    exact ⟨c, hc, hab.trans hbc⟩
  · obtain ⟨b, hb, hgame, hpositions⟩ := h.terminal bot a ha
    obtain ⟨c, hc, hgame', hpositions'⟩ := h'.terminal bot b hb
    exact ⟨c, hc, hgame'.trans hgame, hpositions'.trans hpositions⟩

/-! ## A request for a move -/

section Moves

variable {bot : Text} {payload : WebhookPayload} {input : ProcessInput} {identity : Identity} {outcome : Outcome}

/-- A receipt for a key that has none of a move. -/
theorem later_receipt (hnew : Unissued (s.receipt (env.digest identity.requestId))) : Later s (putReceipt env s input identity outcome) := by
  refine ⟨(Later.refl s).session, (Later.refl s).position, fun k r move decision hr hmove => ?_, (Later.refl s).terminal⟩
  by_cases hk : k = env.digest identity.requestId
  · rw [hk] at hr
    exact absurd hmove (hnew r hr move decision)
  · exact (put_of_ne _ hk _).trans hr

variable (hs : Kept s)

include hs in
theorem kept_receipt : Kept (putReceipt env s input identity outcome) :=
  ⟨hs.gapless, hs.bound, hs.profile, hs.game, hs.archive⟩

variable (h : Advances s bot payload s')

include h

theorem Advances.position_seat :
    s'.position payload.seat = putPositions (s.position payload.seat) payload.positions := by
  rw [h.position]
  exact if_pos rfl

theorem Advances.position_of_ne {seat : Seat} (hseat : seat ≠ payload.seat) :
    s'.position seat = s.position seat := by
  rw [h.position]
  exact if_neg hseat

omit h

include hs

include h

/-- The plies that are written are new. -/
theorem advances_unwritten (hply : payload.basis.start ≤ ply) :
    s.position payload.seat ply = none := by
  cases hp : s.position payload.seat ply with
  | none => rfl
  | some p =>
    obtain ⟨session, hsession, hle⟩ := (hs.gapless payload.seat ply).mp (by rw [hp]; rfl)
    have hstart := h.start
    rw [hsession] at hstart
    change payload.basis.start = session.lastPly + 1 at hstart
    omega

theorem later_advances (hstart : payload.basis.start ≤ payload.ply)
    (hplies : payload.positions.map Prod.fst = List.range' payload.basis.start (payload.ply - payload.basis.start + 1)) : Later s s' := by
  refine ⟨fun seat a ha => ?_, fun seat ply p hp => ?_, fun k r _ _ hr _ => h.receipt ▸ hr,
    fun bot a ha => ⟨a, h.terminal ▸ ha, rfl, rfl⟩⟩
  · obtain ⟨new, hnew, hlast, -, hcontinues⟩ := h.session
    by_cases hseat : seat = payload.seat
    · subst hseat
      obtain ⟨hbot, hgame, hprofile⟩ := hcontinues a ha
      refine ⟨new, by rw [hnew, put_self], hbot, hgame, hprofile, .inr ?_⟩
      have hbasis := h.start
      rw [ha] at hbasis
      change payload.basis.start = a.lastPly + 1 at hbasis
      omega
    · exact ⟨a, by rw [hnew, put_of_ne _ hseat, ha], .refl a⟩
  · by_cases hseat : seat = payload.seat
    · subst hseat
      rw [h.position_seat, putPositions_of_notMem, hp]
      rw [hplies, mem_range'_1]
      rintro ⟨hge, -⟩
      rw [advances_unwritten hs h hge] at hp
      cases hp
    · rw [h.position_of_ne hseat, hp]

theorem kept_advances (hstart : payload.basis.start ≤ payload.ply)
    (hbound : payload.ply ≤ 10000)
    (hplies : payload.positions.map Prod.fst = List.range' payload.basis.start (payload.ply - payload.basis.start + 1)) : Kept s' := by
  have hlater := later_advances hs h hstart hplies
  obtain ⟨new, hnew, hlast, hstored, -⟩ := h.session
  have hsessions : ∀ seat session, s'.session seat = some session → seat = payload.seat ∧ session = new ∨ s.session seat = some session := by
    intro seat session hsession
    rw [hnew] at hsession
    by_cases hseat : seat = payload.seat
    · rw [hseat, put_self] at hsession
      exact .inl ⟨hseat, (some.inj hsession).symm⟩
    · rw [put_of_ne _ hseat] at hsession
      exact .inr hsession
  refine ⟨fun seat ply => ?_, fun seat session hsession => ?_, fun seat session hsession => ?_, h.game, fun bot archive harchive => ?_⟩
  · rw [hnew]
    by_cases hseat : seat = payload.seat
    · subst hseat
      have hold : (s.position payload.seat ply).isSome = true ↔ ply < payload.basis.start := by
        rw [hs.gapless, h.start]
        cases s.session payload.seat with
        | none => simp
        | some current => simp [Nat.lt_succ_iff]
      rw [h.position_seat, putPositions_isSome, hold, hplies, mem_range'_1, put_self]
      constructor
      · intro hmem
        exact ⟨new, rfl, by omega⟩
      · rintro ⟨session, hsession, hle⟩
        obtain rfl := some.inj hsession
        omega
    · rw [h.position_of_ne hseat, put_of_ne _ hseat]
      exact hs.gapless seat ply
  · rcases hsessions seat session hsession with ⟨-, rfl⟩ | hold
    · rw [hlast]
      exact hbound
    · exact hs.bound seat session hold
  · rcases hsessions seat session hsession with ⟨-, rfl⟩ | hold
    · exact hstored
    · exact hs.profile seat session hold
  · rw [h.terminal] at harchive
    obtain ⟨hbot, hpositions⟩ := hs.archive bot archive harchive
    refine ⟨hbot, fun p hp => ?_⟩
    obtain ⟨a, ha, hle⟩ := hpositions p hp
    obtain ⟨b, hb, hcontinues⟩ := hlater.session _ a ha
    refine ⟨b, hb, hle.trans ?_⟩
    rcases hcontinues.lastPly with rfl | hlt
    · exact le_rfl
    · exact hlt.le

omit h

theorem step_process (h : ProcessStep env s input s' outcome) : Later s s' ∧ Kept s' := by
  cases h with
  | refused hno => exact ⟨.refl s, hs⟩
  | replayed hidentity hold => exact ⟨.refl s, hs⟩
  | noted hnew hno => exact ⟨later_receipt hnew, kept_receipt hs⟩
  | issued hidentity hparse hnew hadvance =>
    obtain ⟨hstart, hbound, hplies⟩ := parseMove_positions hparse
    have hnew' := hadvance.receipt ▸ hnew
    exact ⟨(later_advances hs hadvance hstart hplies).trans (later_receipt hnew'),
      kept_receipt (kept_advances hs hadvance hstart hbound hplies)⟩

end Moves

/-! ## The end of a game -/

theorem mem_matchesOf (bot : Text) {found : Seat × Session} (h : found ∈ matchesOf s bot) : s.session found.1 = some found.2 := by
  obtain ⟨seat, -, h⟩ := mem_filterMap.mp h
  obtain ⟨session, hsession, rfl⟩ := map_eq_some_iff.mp h
  exact (filter_eq_some_iff.mp hsession).1

variable {p : ArchivedPositions} {bot : Text} {archive : Archive} {input : ProcessInput}
    {payload : Value} {query : ReviewQuery}

/-- A new archive reaches to the last ply of the seat. -/
theorem archive_positions {input : GameEndInput} {payload : GameEnd}
    (h : (archiveOf s input payload).positions = some p) :
    ∃ session, s.session (p.color, p.seat) = some session ∧ p.throughPly ≤ session.lastPly := by
  obtain ⟨found, hfound, rfl⟩ := map_eq_some_iff.mp h
  refine ⟨found.2, mem_matchesOf input.botIdHash ?_, le_rfl⟩
  split at hfound
  case h_2 => cases hfound
  rename_i hm
  split at hfound
  case isFalse => cases hfound
  cases hfound
  rw [hm]
  exact mem_singleton_self found

/-- An archive with these of its fields changed is put in the place of the old one. -/
theorem later_archive (hterminal : s'.terminal = put s.terminal bot archive)
    (hsession : s'.session = s.session) (hposition : s'.position = s.position) (hgame : s'.game = s.game) (hreceipt : s'.receipt = s.receipt)
    (hs : Kept s) (hbot : archive.botIdHash = bot)
    (hold : ∀ old, s.terminal bot = some old → archive.gameId = old.gameId ∧ archive.positions = old.positions)
    (hpositions : ∀ p, archive.positions = some p →
      ∃ session, s.session (p.color, p.seat) = some session ∧ p.throughPly ≤ session.lastPly) :
    Later s s' ∧ Kept s' := by
  have hput : ∀ k a, s'.terminal k = some a → k = bot ∧ a = archive ∨ s.terminal k = some a := by
    intro k a ha
    rw [hterminal] at ha
    by_cases hk : k = bot
    · rw [hk, put_self] at ha
      exact .inl ⟨hk, (some.inj ha).symm⟩
    · rw [put_of_ne _ hk] at ha
      exact .inr ha
  constructor
  · refine ⟨fun seat a ha => ⟨a, hsession ▸ ha, .refl a⟩, fun seat ply p hp => hposition ▸ hp, fun k r _ _ hr _ => hreceipt ▸ hr,
      fun k a ha => ?_⟩
    rw [hterminal]
    by_cases hk : k = bot
    · rw [hk] at ha ⊢
      exact ⟨archive, put_self _ _ _, hold a ha⟩
    · exact ⟨a, by rw [put_of_ne _ hk, ha], rfl, rfl⟩
  · refine ⟨by rw [hposition, hsession]; exact hs.gapless, by rw [hsession]; exact hs.bound, by rw [hsession]; exact hs.profile,
      by rw [hgame]; exact hs.game, fun k a ha => ?_⟩
    rw [hsession]
    rcases hput k a ha with ⟨rfl, rfl⟩ | ha
    · exact ⟨hbot, hpositions⟩
    · exact hs.archive k a ha

theorem later_gameEnd (hs : Kept s) (input : GameEndInput) : Later s (gameEnd s input).1 ∧ Kept (gameEnd s input).1 := by
  unfold gameEnd
  split
  · exact ⟨.refl s, hs⟩
  split
  · rename_i hnone
    refine later_archive rfl rfl rfl rfl rfl hs rfl (fun old hold => ?_) fun p hp => archive_positions hp
    rw [hnone] at hold
    cases hold
  rename_i existing hexisting
  obtain ⟨hbot, hpositions⟩ := hs.archive _ existing hexisting
  have hsame : ∀ old, s.terminal input.botIdHash = some old → existing.gameId = old.gameId ∧ existing.positions = old.positions := by
    intro old hold
    rw [hexisting] at hold
    cases hold
    exact ⟨rfl, rfl⟩
  split
  case isTrue => exact later_archive rfl rfl rfl rfl rfl hs hbot hsame hpositions
  case isFalse =>
  split
  case isTrue => exact ⟨.refl s, hs⟩
  case isFalse => exact later_archive rfl rfl rfl rfl rfl hs hbot hsame hpositions

/-! ## Runs -/

variable (env) in
theorem later_fetch (hs : Kept s) (request : Request) : Later s (fetch env s request).1 ∧ Kept (fetch env s request).1 := by
  unfold fetch
  split
  · exact ⟨.refl s, hs⟩
  cases request with
  | process input => exact step_process hs (process_cases env hs input)
  | gameEnd input => exact later_gameEnd hs input
  | «export» payload bot => exact ⟨.refl s, hs⟩

variable (env) in
theorem later_after (hs : Kept s) (requests : List Request) : Later s (after env s requests) ∧ Kept (after env s requests) := by
  induction requests generalizing s with
  | nil => exact ⟨.refl s, hs⟩
  | cons request rest ih =>
    obtain ⟨hlater, hkept⟩ := later_fetch env hs request
    obtain ⟨hrest, hkept⟩ := ih hkept
    exact ⟨hlater.trans hrest, hkept⟩

/-! ## What is written -/

/-- The positions that are written are those of one seat, each for a ply that has none. -/
def WritesOnce (s s' : Storage) : Prop :=
  s'.position = s.position ∨ ∃ seat, ∃ positions : List (ℕ × Position), (positions.map Prod.fst).Nodup ∧
    (∀ ply ∈ positions.map Prod.fst, s.position seat ply = none) ∧
    s'.position = fun k => if k = seat then putPositions (s.position k) positions else s.position k

theorem writesOnce_process {outcome : Outcome} (hs : Kept s) (h : ProcessStep env s input s' outcome) :
    WritesOnce s s' := by
  cases h with
  | refused hno => exact .inl rfl
  | replayed hidentity hold => exact .inl rfl
  | noted hnew hno => exact .inl rfl
  | issued hidentity hparse hnew hadvance =>
    obtain ⟨-, -, hplies⟩ := parseMove_positions hparse
    refine .inr ⟨_, _, by rw [hplies]; exact nodup_range', fun ply hply => ?_, hadvance.position⟩
    rw [hplies, mem_range'_1] at hply
    exact advances_unwritten hs hadvance hply.1

/-- The end of a game writes archives only. -/
theorem gameEnd_writes (s : Storage) (input : GameEndInput) :
    (gameEnd s input).1.position = s.position ∧ (gameEnd s input).1.receipt = s.receipt := by
  unfold gameEnd
  split
  · exact ⟨rfl, rfl⟩
  split
  · exact ⟨rfl, rfl⟩
  split
  · exact ⟨rfl, rfl⟩
  split
  · exact ⟨rfl, rfl⟩
  · exact ⟨rfl, rfl⟩

variable (env) in
theorem writesOnce_fetch (hs : Kept s) (request : Request) : WritesOnce s (fetch env s request).1 := by
  unfold fetch
  split
  · exact .inl rfl
  cases request with
  | process input => exact writesOnce_process hs (process_cases env hs input)
  | gameEnd input => exact .inl (gameEnd_writes s input).1
  | «export» payload bot => exact .inl rfl

/-! ## The moves -/

def answers (env : Env) : Storage → List Request → List (Request × Response)
  | _, [] => []
  | s, request :: rest => (request, (fetch env s request).2) :: answers env (fetch env s request).1 rest

/-- A move that is the response for this seat and ply. -/
def Moved (answered : Request × Response) (seat : Seat) (ply : ℕ) (move : Text) : Prop :=
  ∃ input payload position decision, answered = (.process input, .process (.move move decision)) ∧
    parseMove input.payload = .ok (payload, position) ∧ payload.seat = seat ∧ payload.ply = ply

/-- The hash of a body is that of one payload. -/
def Hashed (requests : List Request) : Prop :=
  ∀ a b, Request.process a ∈ requests → Request.process b ∈ requests → a.bodyHash = b.bodyHash → a.payload = b.payload

/-- The moves that are issued, each of a ply that its seat is past, and the receipts are for no others. -/
structure Accounted (requests : List Request) (issued : Seat → ℕ → Option Text) (s : Storage) : Prop where
  session : ∀ seat ply move, issued seat ply = some move → ∃ session, s.session seat = some session ∧ ply ≤ session.lastPly
  receipt : ∀ k r move decision, s.receipt k = some r → r.outcome = .move move decision →
    ∃ input payload position, Request.process input ∈ requests ∧ input.bodyHash = r.bodyHash ∧
      parseMove input.payload = .ok (payload, position) ∧ issued payload.seat payload.ply = some move

theorem accounted_empty (requests : List Request) : Accounted requests (fun _ _ => none) Storage.empty where
  session seat ply move h := by cases h
  receipt k r move decision h := by cases h

section Moves

variable {requests : List Request} {issued : Seat → ℕ → Option Text} {input : ProcessInput} {outcome : Outcome}

theorem Accounted.of_later (h : Accounted requests issued s) (hlater : Later s s')
    (hreceipt : ∀ k r move decision, s'.receipt k = some r → r.outcome = .move move decision → s.receipt k = some r) :
    Accounted requests issued s' := by
  refine ⟨fun seat ply move hissued => ?_, fun k r move decision hr hmove => h.receipt k r move decision (hreceipt k r move decision hr hmove)
    hmove⟩
  obtain ⟨a, ha, hle⟩ := h.session seat ply move hissued
  obtain ⟨b, hb, hcontinues⟩ := hlater.session seat a ha
  refine ⟨b, hb, ?_⟩
  rcases hcontinues.lastPly with rfl | hlt
  · exact hle
  · omega

def issue (issued : Seat → ℕ → Option Text) (seat : Seat) (ply : ℕ) (move : Text) : Seat → ℕ → Option Text :=
  fun k n => if k = seat ∧ n = ply then some move else issued k n

theorem issue_self {seat : Seat} {move : Text} : issue issued seat ply move seat ply = some move := if_pos ⟨rfl, rfl⟩

/-- A move of a ply that none is issued for. -/
theorem issue_keeps {seat : Seat} {move : Text} (hnone : issued seat ply = none) {k : Seat} {n : ℕ} {m : Text} (h : issued k n = some m) :
    issue issued seat ply move k n = some m := by
  refine (if_neg ?_).trans h
  rintro ⟨rfl, rfl⟩
  rw [hnone] at h
  cases h

theorem accounted_process (hs : Kept s) (hhashed : Hashed requests) (hmem : Request.process input ∈ requests)
    (h : Accounted requests issued s) (hstep : ProcessStep env s input s' outcome) :
    ∃ issued', (∀ seat ply move, issued seat ply = some move → issued' seat ply = some move) ∧ Accounted requests issued' s' ∧
      ∀ move decision, outcome = .move move decision →
        ∀ payload position, parseMove input.payload = .ok (payload, position) → issued' payload.seat payload.ply = some move := by
  obtain ⟨hlater, -⟩ := step_process hs hstep
  cases hstep with
  | refused hno => exact ⟨issued, fun _ _ _ h => h, h, fun move decision hmove => absurd hmove (hno move decision)⟩
  | replayed hidentity hold =>
    refine ⟨issued, fun _ _ _ h => h, h, fun move decision hmove payload position hparse => ?_⟩
    obtain ⟨first, payload', position', hfirst, hbody, hparse', hissued⟩ := h.receipt _ _ move decision hold hmove
    -- the receipt is for the body of this request
    rw [hhashed first input hfirst hmem hbody, hparse] at hparse'
    cases hparse'
    exact hissued
  | @noted identity outcome hnew hno =>
    refine ⟨issued, fun _ _ _ h => h, h.of_later hlater fun k r move decision hr hmove => ?_, fun move decision hmove =>
      absurd hmove (hno move decision)⟩
    by_cases hk : k = env.digest identity.requestId
    · rw [hk] at hr
      rw [← some.inj ((put_self _ _ _).symm.trans hr)] at hmove
      exact absurd hmove (hno move decision)
    · exact (put_of_ne _ hk _).symm.trans hr
  | @issued identity payload position s₁ move decision hidentity hparse hnew hadvance =>
    obtain ⟨new, hsession, hlast, -, -⟩ := hadvance.session
    obtain ⟨hstart, -, -⟩ := parseMove_positions hparse
    have hnone : issued payload.seat payload.ply = none := by
      cases hissued : issued payload.seat payload.ply with
      | none => rfl
      | some old =>
        obtain ⟨session, hold, hle⟩ := h.session _ _ old hissued
        have hp := advances_unwritten hs hadvance hstart
        have hsome := (hs.gapless payload.seat payload.ply).mpr ⟨session, hold, hle⟩
        rw [hp] at hsome
        cases hsome
    refine ⟨issue issued payload.seat payload.ply move, fun _ _ _ => issue_keeps hnone, ⟨fun seat ply m hm => ?_,
      fun k r m d hr hmove => ?_⟩, ?_⟩
    · by_cases hk : seat = payload.seat ∧ ply = payload.ply
      · obtain ⟨rfl, rfl⟩ := hk
        refine ⟨new, ?_, hlast.ge⟩
        change s₁.session payload.seat = some new
        rw [hsession, put_self]
      · obtain ⟨a, ha, hle⟩ := h.session seat ply m ((if_neg hk).symm.trans hm)
        obtain ⟨b, hb, hcontinues⟩ := hlater.session seat a ha
        refine ⟨b, hb, ?_⟩
        rcases hcontinues.lastPly with rfl | hlt
        · exact hle
        · omega
    · by_cases hk : k = env.digest identity.requestId
      · rw [hk] at hr
        obtain rfl := some.inj ((put_self _ _ _).symm.trans hr)
        cases hmove
        exact ⟨input, payload, position, hmem, rfl, hparse, issue_self⟩
      · have hold := (put_of_ne _ hk _).symm.trans hr
        rw [hadvance.receipt] at hold
        obtain ⟨first, payload', position', hfirst, hbody, hparse', hissued⟩ := h.receipt k r m d hold hmove
        exact ⟨first, payload', position', hfirst, hbody, hparse', issue_keeps hnone hissued⟩
    · intro m d hmove payload' position' hparse'
      rw [hparse] at hparse'
      cases hparse'
      cases hmove
      exact issue_self

variable (env) in
theorem accounted_fetch (hs : Kept s) (hhashed : Hashed requests) {request : Request} (hmem : request ∈ requests)
    (h : Accounted requests issued s) :
    ∃ issued', (∀ seat ply move, issued seat ply = some move → issued' seat ply = some move) ∧
      Accounted requests issued' (fetch env s request).1 ∧
      ∀ seat ply move, Moved (request, (fetch env s request).2) seat ply move → issued' seat ply = some move := by
  obtain ⟨hlater, -⟩ := later_fetch env hs request
  unfold fetch at hlater ⊢
  split
  · refine ⟨issued, fun _ _ _ h => h, h, ?_⟩
    rintro _ _ move ⟨input, payload, position, decision, hmoved, -⟩
    cases request <;> cases hmoved
  rename_i hinternal
  rw [if_neg hinternal] at hlater
  cases request with
  | process input =>
    obtain ⟨issued', hgrows, haccounted, hmoves⟩ := accounted_process hs hhashed hmem h (process_cases env hs input)
    refine ⟨issued', hgrows, haccounted, ?_⟩
    rintro _ _ move ⟨_, payload, position, decision, hmoved, hparse, rfl, rfl⟩
    cases (Prod.mk.inj hmoved).1
    exact hmoves move decision (Response.process.inj (Prod.mk.inj hmoved).2) payload position hparse
  | gameEnd input =>
    refine ⟨issued, fun _ _ _ h => h, h.of_later hlater fun k r _ _ hr _ => ?_, ?_⟩
    · rwa [(gameEnd_writes s input).2] at hr
    · rintro _ _ move ⟨_, payload, position, decision, hmoved, -⟩
      cases hmoved
  | «export» payload bot =>
    refine ⟨issued, fun _ _ _ h => h, h, ?_⟩
    rintro _ _ move ⟨_, payload, position, decision, hmoved, -⟩
    cases hmoved

variable (env) in
/-- There is one account of the moves of a whole run. -/
theorem moves_accounted (hs : Kept s) (hhashed : Hashed requests) (run : List Request) (hmem : ∀ request ∈ run, request ∈ requests)
    (h : Accounted requests issued s) :
    ∃ issued' : Seat → ℕ → Option Text, (∀ seat ply move, issued seat ply = some move → issued' seat ply = some move) ∧
      ∀ answered ∈ answers env s run, ∀ seat ply move, Moved answered seat ply move → issued' seat ply = some move := by
  induction run generalizing s issued with
  | nil => exact ⟨issued, fun _ _ _ h => h, fun answered hanswered => absurd hanswered not_mem_nil⟩
  | cons request rest ih =>
    obtain ⟨issued₁, hgrows, haccounted, hmoved⟩ := accounted_fetch env hs hhashed (hmem request mem_cons_self) h
    obtain ⟨issued₂, hgrows₂, hmoved₂⟩ :=
      ih (later_fetch env hs request).2 (fun r hr => hmem r (mem_cons_of_mem request hr)) haccounted
    refine ⟨issued₂, fun seat ply move hm => hgrows₂ _ _ _ (hgrows _ _ _ hm), fun answered hanswered seat ply move hm => ?_⟩
    rcases mem_cons.mp hanswered with rfl | hanswered
    · exact hgrows₂ _ _ _ (hmoved _ _ _ hm)
    · exact hmoved₂ answered hanswered seat ply move hm

end Moves

/-! ## Retries -/

section Retries

variable {input retry : ProcessInput} {move : Text} {decision : Decision}

theorem receipt_of_move (hs : Kept s) (h : (process env s input).2 = .move move decision) :
    ∃ identity, extractRequestIdentity input.payload = .ok identity ∧
      (process env s input).1.receipt (env.digest identity.requestId) = some (receiptOf input identity (.move move decision)) := by
  have hcases := process_cases env hs input
  rw [h] at hcases
  generalize (process env s input).1 = s' at hcases ⊢
  cases hcases with
  | refused hno => exact absurd rfl (hno move decision)
  | replayed hidentity hold => exact ⟨_, hidentity, hold⟩
  | noted hnew hno => exact absurd rfl (hno move decision)
  | issued hidentity hparse hnew hadvance => exact ⟨_, hidentity, put_self _ _ _⟩

/-- A move that a receipt holds is the answer again. -/
theorem process_receipt {identity identity' : Identity} (hidentity : extractRequestIdentity retry.payload = .ok identity')
    (hid : identity'.requestId = identity.requestId) (hbody : retry.bodyHash = input.bodyHash) (hbot : retry.botIdHash = input.botIdHash)
    (hold : s.receipt (env.digest identity.requestId) = some (receiptOf input identity (.move move decision))) :
    process env s retry = (s, .move move decision) := by
  have htransaction : processTransaction env s retry identity' = some (s, .move move decision) := by
    unfold processTransaction
    rw [hid, hold]
    simp [receiptOf, hbody, hbot]
  rw [process, hidentity]
  simp [settle, htransaction]

/-- The retry of a request that was answered with a move, after any other requests. -/
theorem retry_answer (hs : Kept s) (h : (process env s input).2 = .move move decision) (requests : List Request)
    (hbody : retry.bodyHash = input.bodyHash) (hbot : retry.botIdHash = input.botIdHash) (hpayload : retry.payload = input.payload) :
    (process env (after env (process env s input).1 requests) retry).2 = .move move decision := by
  obtain ⟨identity, hidentity, hreceipt⟩ := receipt_of_move hs h
  obtain ⟨-, hkept⟩ := step_process hs (process_cases env hs input)
  obtain ⟨hlater, -⟩ := later_after env hkept requests
  have hold := hlater.receipt _ _ move decision hreceipt rfl
  rw [process_receipt (by rw [hpayload, hidentity]) rfl hbody hbot hold]

end Retries

/-! ## After the end -/

variable (env) in
/-- A bot whose game has ended gets no move but one that a receipt holds. -/
theorem ended_process (hs : Kept s) (hended : s.terminal input.botIdHash ≠ none) :
    (process env s input).1.session = s.session ∧ (process env s input).1.position = s.position ∧
      ∀ move decision, (process env s input).2 = .move move decision → ∃ k r, s.receipt k = some r ∧ r.bodyHash = input.bodyHash ∧
        r.botIdHash = input.botIdHash ∧ r.outcome = .move move decision := by
  have hcases := process_cases env hs input
  generalize (process env s input).1 = s', (process env s input).2 = outcome at hcases ⊢
  cases hcases with
  | refused hno => exact ⟨rfl, rfl, fun move decision hmove => absurd hmove (hno move decision)⟩
  | replayed hidentity hold => exact ⟨rfl, rfl, fun move decision hmove => ⟨_, _, hold, rfl, rfl, hmove⟩⟩
  | noted hnew hno => exact ⟨rfl, rfl, fun move decision hmove => absurd hmove (hno move decision)⟩
  | issued hidentity hparse hnew hadvance => exact absurd hadvance.running hended

/-! ## The pages of an export -/

theorem validate_query (h : validateOfflineReviewPayload payload = .ok query) : 1 ≤ query.limit := by
  unfold validateOfflineReviewPayload at h
  dsimp only at h
  split at h
  case h_2 => cases h
  rename_i q hparsed
  cases h
  obtain ⟨fields, -, h⟩ := bind_eq_some_iff.mp hparsed
  obtain ⟨-, -, h⟩ := bind_eq_some_iff.mp h
  obtain ⟨-, -, h⟩ := bind_eq_some_iff.mp h
  obtain ⟨gameId, -, h⟩ := bind_eq_some_iff.mp h
  obtain ⟨fromPly, -, h⟩ := bind_eq_some_iff.mp h
  obtain ⟨limit, hlimit, h⟩ := bind_eq_some_iff.mp h
  cases h
  exact (int_range hlimit).1

/-- Entries that all have a value, by their keys. -/
theorem entries_of_isSome {α β : Type} {f : α → Option β} {l : List α} (h : ∀ x ∈ l, (f x).isSome = true) :
    ((l.map fun x => (x, f x)).filterMap fun entry => entry.2.map fun y => (entry.1, y)).map Prod.fst = l := by
  induction l with
  | nil => rfl
  | cons x l ih =>
    obtain ⟨y, hy⟩ := isSome_iff_exists.mp (h x mem_cons_self)
    have hrest := ih fun z hz => h z (mem_cons_of_mem x hz)
    rw [map_cons, filterMap_cons, hy]
    exact congrArg (x :: ·) hrest

/-- A page that is exported: the positions from a ply to its last one, and where the next page starts. -/
structure PageOf (s : Storage) (p : ArchivedPositions) (fromPly : ℕ) (r : Review) (last : ℕ) : Prop where
  first : fromPly ≤ last
  through : last ≤ p.throughPly
  plies : r.positions.map Prod.fst = List.range' fromPly (last + 1 - fromPly)
  stored : ∀ entry ∈ r.positions, s.position (p.color, p.seat) entry.1 = some entry.2
  next : r.nextFromPly = if last < p.throughPly then some (last + 1) else none

theorem pageOf_of_le (s : Storage) (h : query.fromPly ≤ p.throughPly) :
    pageOf s p query =
      ((List.range' query.fromPly (min p.throughPly (query.fromPly + query.limit - 1) + 1 - query.fromPly)).map fun ply =>
        (ply, s.position (p.color, p.seat) ply),
        if min p.throughPly (query.fromPly + query.limit - 1) < p.throughPly then
          some (min p.throughPly (query.fromPly + query.limit - 1) + 1)
        else none) :=
  if_pos h

theorem export_page (hs : Kept s)
    (harchive : s.terminal bot = some archive) (hp : archive.positions = some p)
    (hquery : validateOfflineReviewPayload payload = .ok query) (hgame : archive.gameId = query.gameId) (hfrom : query.fromPly ≤ p.throughPly) :
    ∃ r last, exportReview s payload bot = .review r ∧ PageOf s p query.fromPly r last := by
  obtain ⟨hbot, hpositions⟩ := hs.archive bot archive harchive
  obtain ⟨session, hsession, hle⟩ := hpositions p hp
  have hlimit := validate_query hquery
  have hfound : (s.terminal bot).filter (fun archive => archive.gameId = query.gameId && archive.botIdHash = bot) = some archive := by
    rw [harchive, filter_some, if_pos]
    simp [hgame, hbot]
  have hstored : ∀ ply ∈ List.range' query.fromPly (min p.throughPly (query.fromPly + query.limit - 1) + 1 - query.fromPly),
      (s.position (p.color, p.seat) ply).isSome = true := by
    intro ply hply
    rw [mem_range'_1] at hply
    exact (hs.gapless _ ply).mpr ⟨session, hsession, by omega⟩
  have hpage := pageOf_of_le s hfrom
  unfold exportReview
  rw [hquery]
  dsimp only
  rw [hfound]
  dsimp only
  rw [hp]
  refine ⟨_, min p.throughPly (query.fromPly + query.limit - 1), rfl, by omega, by omega, ?_, fun entry hentry => ?_, ?_⟩
  · rw [hpage]
    exact entries_of_isSome hstored
  · rw [hpage] at hentry
    obtain ⟨e, he, hentry⟩ := mem_filterMap.mp hentry
    obtain ⟨ply, -, rfl⟩ := mem_map.mp he
    obtain ⟨position, hposition, rfl⟩ := map_eq_some_iff.mp hentry
    exact hposition
  · rw [hpage]

/-- The pages of an export from this ply on, until there is no next ply: each is asked for with a query of its own, after requests of
others. -/
def readAll (env : Env) (bot : Text) (between : ℕ → List Request) (query : ℕ → Value) :
    ℕ → Storage → ℕ → Option (List (ℕ × Position))
  | 0, _, _ => none
  | fuel + 1, s, fromPly =>
    match exportReview (after env s (between fromPly)) (query fromPly) bot with
    | .refused _ _ => none
    | .review r =>
      match r.nextFromPly with
      | none => some r.positions
      | some next => (readAll env bot between query fuel (after env s (between fromPly)) next).map (r.positions ++ ·)

variable (env) in
theorem readAll_plies (between : ℕ → List Request) {query : ℕ → Value} {gameId : Text}
    (hquery : ∀ fromPly ≤ 10000, ∃ limit, validateOfflineReviewPayload (query fromPly) = .ok ⟨gameId, fromPly, limit⟩) (fuel : ℕ)
    (hs : Kept s) (harchive : s.terminal bot = some archive) (hp : archive.positions = some p)
    (hgame : archive.gameId = gameId) (fromPly : ℕ) (hfrom : fromPly ≤ p.throughPly) (hfuel : p.throughPly < fuel + fromPly) :
    ∃ l, readAll env bot between query fuel s fromPly = some l ∧ l.map Prod.fst = List.range' fromPly (p.throughPly + 1 - fromPly) ∧
      ∀ entry ∈ l, s.position (p.color, p.seat) entry.1 = some entry.2 := by
  induction fuel generalizing s archive fromPly with
  | zero => omega
  | succ fuel ih =>
    obtain ⟨session, hsession, hle⟩ := (hs.archive bot archive harchive).2 p hp
    have hbound := hs.bound _ session hsession
    obtain ⟨limit, hlimit⟩ := hquery fromPly (by omega)
    obtain ⟨hlater, hkept⟩ := later_after env hs (between fromPly)
    obtain ⟨archive', harchive', hgame', hp'⟩ := hlater.terminal bot archive harchive
    obtain ⟨r, last, hexport, hpage⟩ := export_page hkept harchive' (hp'.trans hp) hlimit (hgame'.trans hgame) hfrom
    -- what is stored now was stored from the start
    have hstored : ∀ entry : ℕ × Position, entry.1 ≤ p.throughPly →
        (after env s (between fromPly)).position (p.color, p.seat) entry.1 = some entry.2 →
          s.position (p.color, p.seat) entry.1 = some entry.2 := by
      intro entry hthrough hentry
      obtain ⟨position, hposition⟩ := isSome_iff_exists.mp
        ((hs.gapless (p.color, p.seat) entry.1).mpr ⟨session, hsession, hthrough.trans hle⟩)
      rw [hlater.position _ _ position hposition] at hentry
      rw [hposition, hentry]
    have hthrough : ∀ l : List (ℕ × Position), ∀ n, l.map Prod.fst = List.range' n (p.throughPly + 1 - n) → ∀ entry ∈ l,
        entry.1 ≤ p.throughPly := by
      intro l n hl entry hentry
      have hmem := mem_map_of_mem (f := Prod.fst) hentry
      rw [hl, mem_range'_1] at hmem
      omega
    rw [readAll, hexport]
    dsimp only
    rw [hpage.next]
    have hfirst : fromPly ≤ last := hpage.first
    have hlast := hpage.through
    by_cases hmore : last < p.throughPly
    · rw [if_pos hmore]
      obtain ⟨rest, hrest, hplies, hrestStored⟩ :=
        ih hkept harchive' (hp'.trans hp) (hgame'.trans hgame) (last + 1) (by omega) (by omega)
      have hrange : r.positions.map Prod.fst ++ rest.map Prod.fst = List.range' fromPly (p.throughPly + 1 - fromPly) := by
        have hsplit : p.throughPly + 1 - fromPly = (last + 1 - fromPly) + (p.throughPly + 1 - (last + 1)) := by omega
        have hnext : last + 1 = fromPly + 1 * (last + 1 - fromPly) := by omega
        rw [hpage.plies, hplies, hsplit, ← List.range'_append, ← hnext]
      refine ⟨r.positions ++ rest, by dsimp only; rw [hrest]; rfl, by rw [map_append, hrange], fun entry hentry => ?_⟩
      refine hstored entry (hthrough _ fromPly (by rw [map_append, hrange]) entry hentry) ?_
      rcases mem_append.mp hentry with hentry | hentry
      · exact hpage.stored entry hentry
      · exact hrestStored entry hentry
    · rw [if_neg hmore]
      obtain rfl : last = p.throughPly := by omega
      exact ⟨r.positions, rfl, hpage.plies, fun entry hentry =>
        hstored entry (hthrough _ fromPly hpage.plies entry hentry) (hpage.stored entry hentry)⟩

/-! ## Every run -/

theorem fetch_move {move : Text} {decision : Decision}
    (h : (fetch env s (.process input)).2 = .process (.move move decision)) :
    Request.isInternal (.process input) = true ∧ (process env s input).2 = .move move decision := by
  unfold fetch at h
  split at h
  case isTrue => cases h
  case isFalse hinternal => exact ⟨not_not.mp hinternal, Response.process.inj h⟩

theorem fetch_internal (h : Request.isInternal (.process input) = true) :
    fetch env s (.process input) = ((process env s input).1, .process (process env s input).2) :=
  if_neg (not_not.mpr h)

/-- What holds of a run of requests from an empty storage. -/
structure History (env : Env) (requests : List Request) : Prop where
  /-- The positions of a seat are those up to its last ply. -/
  gapless : ∀ seat ply, ((after env .empty requests).position seat ply).isSome = true ↔
    ∃ session, (after env .empty requests).session seat = some session ∧ ply ≤ session.lastPly
  once : ∀ request, WritesOnce (after env .empty requests) (after env .empty (requests ++ [request]))
  later : ∀ more, Later (after env .empty requests) (after env .empty (requests ++ more))
  /-- There is one move for a seat and a ply. -/
  single : ∀ a ∈ answers env .empty requests, ∀ b ∈ answers env .empty requests, ∀ seat ply move move',
    Moved a seat ply move → Moved b seat ply move' → move = move'
  /-- A request that was answered with a move is answered with it again. -/
  retried : ∀ input move decision, (fetch env (after env .empty requests) (.process input)).2 = .process (.move move decision) →
    ∀ more retry, retry.payload = input.payload → retry.bodyHash = input.bodyHash → retry.botIdHash = input.botIdHash →
      (fetch env (after env .empty (requests ++ .process input :: more)) (.process retry)).2 = .process (.move move decision)
  /-- After its game has ended, a bot gets no move but one that a receipt holds. -/
  ended : ∀ input, (after env .empty requests).terminal input.botIdHash ≠ none →
    (fetch env (after env .empty requests) (.process input)).1.session = (after env .empty requests).session ∧
    (fetch env (after env .empty requests) (.process input)).1.position = (after env .empty requests).position ∧
      ∀ move decision, (fetch env (after env .empty requests) (.process input)).2 = .process (.move move decision) →
        ∃ k r, (after env .empty requests).receipt k = some r ∧ r.bodyHash = input.bodyHash ∧ r.botIdHash = input.botIdHash ∧
          r.outcome = .move move decision
  /-- The pages of an export have every ply of the archive once, whatever is requested between them. -/
  paged : ∀ bot archive p, (after env .empty requests).terminal bot = some archive → archive.positions = some p → ∀ between query,
    (∀ fromPly ≤ 10000, ∃ limit, validateOfflineReviewPayload (query fromPly) = .ok ⟨archive.gameId, fromPly, limit⟩) →
      ∃ l, readAll env bot between query (p.throughPly + 1) (after env .empty requests) 0 = some l ∧
        l.map Prod.fst = List.range (p.throughPly + 1) ∧
          ∀ entry ∈ l, (after env .empty requests).position (p.color, p.seat) entry.1 = some entry.2

def oneMove : Env :=
  ⟨fun _ => .move (text ['+', '7', '7', '7', '6', 'F', 'U']) ⟨BRAIN_VERSION, LEGACY_PROFILE.id⟩, id, fun _ => []⟩

def firstRequest : ProcessInput where
  payload := .object [
    (text ['r', 'e', 'q', 'u', 'e', 's', 't', 'I', 'd'], .string (text ['r', '1'])),
    (text ['g', 'a', 'm', 'e', 'I', 'd'], .string (text ['g', '1'])),
    (text ['c', 'o', 'l', 'o', 'r'], .string (text ['b'])),
    (text ['n', 'u', 'm', 'b', 'e', 'r'], .int 0),
    (text ['p', 'l', 'y'], .int 0),
    (text ['g', 'a', 'm', 'e'], .object [
      (text ['t', 'y', 'p', 'e'], .string supportedType),
      (text ['r', 'e', 'q', 'u', 'i', 'r', 'e', 'd', 'P', 'l', 'a', 'y', 'e', 'r', 's'],
        .object [(text ['b'], .int 1), (text ['w'], .int 1)])]),
    (text ['p', 'o', 's', 'i', 't', 'i', 'o', 'n', 's'], .object [(text ['0'], .object [
      (text ['s', 'f', 'e', 'n'], .string (text [
        'l', 'n', 's', 'g', 'k', 'g', 's', 'n', 'l', '/', '1', 'r', '5', 'b', '1', '/', 'p', 'p', 'p', 'p', 'p', 'p', 'p', 'p', 'p', '/',
        '9', '/', '9', '/', '9', '/', 'P', 'P', 'P', 'P', 'P', 'P', 'P', 'P', 'P', '/',
        '1', 'B', '5', 'R', '1', '/', 'L', 'N', 'S', 'G', 'K', 'G', 'S', 'N', 'L', ' ', 'b', ' ', '-', ' ', '1']))])])]
  bodyHash := List.replicate 64 'a'.toNat
  botIdHash := List.replicate 64 'b'.toNat
  configured := .unset

end Docich.Webhook
