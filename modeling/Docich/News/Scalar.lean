import Docich.Fallible
import Docich.Rounding
import Mathlib.Data.Rat.Floor

/-!
# Scalars of the news account

Identifiers, decimal amounts and instants, with the checks the ledger makes on them. A decimal is the rational it
denotes; what the code rounds, it rounds here too (`money`, and `Docich.Rounding`).
-/

namespace Docich.News

/-- Microseconds since the epoch. -/
abbrev Instant := Int

/-- What a call can raise: a contract violation of either module with its code, or a broken database constraint. -/
inductive Raised
  | ledger (code : String)
  | execution (code : String)
  | integrity
  deriving DecidableEq

/-- The fixed codes that receipts and cancel events may carry. -/
def reasonCodes : List String :=
  ["INVALID_JSON", "DUPLICATE_JSON_KEY", "UNKNOWN_KEY", "SCHEMA_VERSION_UNSUPPORTED",
   "TYPE_INVALID", "NONFINITE_VALUE", "VALUE_OUT_OF_RANGE", "PAYLOAD_LIMIT",
   "NON_PAPER_MODE", "LIVE_ELIGIBILITY_FORBIDDEN", "ACCOUNT_SCOPE_MISMATCH",
   "STATE_PATH_FORBIDDEN", "FORBIDDEN_CAPABILITY",
   "SOURCE_UNKNOWN", "SOURCE_NOT_APPROVED", "SOURCE_TIME_UNKNOWN", "TIMEZONE_MISSING",
   "FUTURE_NEWS", "NEWS_STALE", "NEWS_NOT_AVAILABLE", "CLOCK_UNTRUSTED",
   "ASSET_UNMAPPED", "ASSET_AMBIGUOUS",
   "EVIDENCE_MISSING", "EVIDENCE_NOT_AVAILABLE", "EVIDENCE_REVOKED",
   "NEWS_DUPLICATE", "EVENT_ALREADY_USED", "COOLDOWN_ACTIVE", "NEWS_CONFLICT",
   "NEWS_PRICE_CONFLICT",
   "NEWS_UNAVAILABLE", "NO_DIRECTION", "FEATURE_DISABLED", "SHADOW_ONLY",
   "CLASSIFIER_TIMEOUT", "CLASSIFIER_UNAVAILABLE", "CLASSIFIER_OUTPUT_INVALID",
   "CLASSIFIER_LOW_CONFIDENCE", "MATERIALITY_LOW", "SIGNAL_EXPIRED",
   "SOURCE_TIMEOUT", "SOURCE_RATE_LIMITED", "SOURCE_RESPONSE_TOO_LARGE",
   "SOURCE_CONTENT_INVALID", "SOURCE_URL_FORBIDDEN",
   "BUDGET_EXHAUSTED", "STORE_UNAVAILABLE",
   "MARKET_CLOSED", "CALENDAR_UNAVAILABLE", "QUOTE_STALE", "QUOTE_UNTRADEABLE",
   "QUOTE_NOT_NEW", "BAR_NOT_CLOSED", "VOLUME_UNAVAILABLE", "SPREAD_TOO_WIDE",
   "VOLATILITY_LIMIT", "LIQUIDITY_UNKNOWN", "LIQUIDITY_INSUFFICIENT",
   "INSUFFICIENT_FUNDS", "INSUFFICIENT_INVENTORY", "MIN_ORDER_NOT_MET",
   "POSITION_LIMIT", "CURRENCY_EXPOSURE_LIMIT", "DAILY_LOSS_LIMIT",
   "DRAWDOWN_LIMIT", "RISK_RESERVATION_CONFLICT",
   "ORDER_EXPIRED", "IOC_REMAINDER_CANCELED", "ORDER_ALREADY_FINAL",
   "RECEIPT_NOT_COMMITTED", "RISK_CHANGED_BEFORE_FILL",
   "NEWS_PRICE_AGREE", "NEWS_ONLY_ELIGIBLE", "RISK_EXIT"]

/-! ## Checks -/

/-- Fail with `e` unless `p`. -/
def require (p : Prop) [Decidable p] (e : Raised) : Except Raised Unit := if p then .ok () else .error e

variable {p : Prop} {e : Raised} {x y value : ℚ}

theorem require_ok [Decidable p] {u : Unit} (h : require p e = .ok u) : p := by
  unfold require at h
  split at h
  · assumption
  · cases h

export Fallible (bind_ok)

/-- A sequence fails in its first part or in its second. -/
theorem bind_error {α β : Type} {x : Except Raised α} {f : α → Except Raised β}
    (h : (x >>= f) = .error e) : x = .error e ∨ ∃ a, x = .ok a ∧ f a = .error e := by
  cases x with
  | error e' =>
    cases h
    exact .inl rfl
  | ok a => exact .inr ⟨a, rfl, h⟩

theorem require_error [Decidable p] {e' : Raised} (h : require p e = .error e') : ¬ p ∧ e' = e := by
  unfold require at h
  split at h
  · cases h
  next hp =>
    cases h
    exact ⟨hp, rfl⟩

theorem require_bind_ok [Decidable p] {β : Type} {f : Unit → Except Raised β} {b : β}
    (h : (require p e >>= f) = .ok b) : p ∧ f () = .ok b := by
  obtain ⟨u, hu, hf⟩ := bind_ok h
  exact ⟨require_ok hu, hf⟩

def idChar (c : Char) : Bool := c.isAlphanum || c = '_' || c = '.' || c = ':' || c = '-'

/-- The identifier pattern: up to 128 characters, the first of them a letter or digit. The pattern's end also
matches before one final newline. -/
def validId (s : String) : Bool :=
  let cs := s.toList
  match if cs.getLast? = some '\n' then cs.dropLast else cs with
  | [] => false
  | c :: cs => c.isAlphanum && cs.length ≤ 127 && cs.all idChar

def checkId (s : String) : Except Raised Unit := require (validId s) (.ledger "VALUE_OUT_OF_RANGE")

/-- A non-empty text of at most `limit` characters. -/
def checkText (s : String) (limit : Nat) : Except Raised Unit :=
  require (s ≠ "" ∧ s.length ≤ limit) (.execution "VALUE_OUT_OF_RANGE")

/-- The smallest stored amount, `0.00000001`. -/
def quantum : ℚ := 1 / 100000000

theorem quantum_pos : 0 < quantum := by
  unfold quantum
  norm_num

/-- The decimal pattern: at most 18 digits before the point and 8 behind it. -/
def isDec (x : ℚ) : Prop := (x * 100000000).den = 1 ∧ |x| < 1000000000000000000

instance (x : ℚ) : Decidable (isDec x) := inferInstanceAs (Decidable (_ ∧ _))

/-- An unsigned amount. -/
def dec (x : ℚ) : Except Raised ℚ :=
  if isDec x ∧ 0 ≤ x then .ok x else .error (.ledger "VALUE_OUT_OF_RANGE")

def decPositive (x : ℚ) : Except Raised ℚ :=
  if isDec x ∧ 0 < x then .ok x else .error (.ledger "VALUE_OUT_OF_RANGE")

/-- A computed amount as it is stored: charges are rounded up, credits down and never below zero. -/
def money (value : ℚ) (charge : Bool) : Except Raised ℚ :=
  let rounded := if charge then roundUp quantum value else roundDown quantum value
  let rounded := if rounded < 0 ∧ charge = false then 0 else rounded
  if isDec rounded then .ok rounded else .error (.ledger "VALUE_OUT_OF_RANGE")

theorem dec_ok (h : dec x = .ok y) : y = x ∧ isDec x ∧ 0 ≤ x := by
  unfold dec at h
  split at h
  · next hx =>
    cases h
    exact ⟨rfl, hx⟩
  · cases h

theorem decPositive_ok (h : decPositive x = .ok y) : y = x ∧ isDec x ∧ 0 < x := by
  unfold decPositive at h
  split at h
  · next hx =>
    cases h
    exact ⟨rfl, hx⟩
  · cases h

theorem money_charge {cost : ℚ} (h : money value true = .ok cost) : cost = roundUp quantum value := by
  unfold money at h
  simp only [if_true, Bool.true_eq_false, and_false, if_false] at h
  split at h
  · cases h
    rfl
  · cases h

/-- A credit is what is left of the value after rounding, or nothing. -/
theorem money_credit {credit : ℚ} (h : money value false = .ok credit) :
    credit = max 0 (roundDown quantum value) := by
  unfold money at h
  by_cases hneg : roundDown quantum value < 0
  · simp only [Bool.false_eq_true, if_false, and_true, hneg, if_true] at h
    split at h
    · cases h
      exact (max_eq_left hneg.le).symm
    · cases h
  · simp only [Bool.false_eq_true, if_false, and_true, hneg] at h
    split at h
    · cases h
      exact (max_eq_right (not_lt.mp hneg)).symm
    · cases h

end Docich.News
