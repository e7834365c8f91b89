import Mathlib.Order.Lex

/-!
# Wall-clock stamps

- `Instant`: microseconds since 1970, what a clock reading is;
- `Date.ofDays`: the calendar, day after day;
- `isoText`: the text `datetime.isoformat()` gives an instant, which has no fraction on a whole second.

Stamps are stored and compared as texts.
-/

namespace Docich.GameSwitch

/-- Microseconds since 1970-01-01T00:00:00Z. -/
abbrev Instant := Nat

/-! ## The calendar -/

structure Date where
  year : Nat
  month : Nat
  day : Nat

namespace Date

def leap (y : Nat) : Bool := y % 4 == 0 && (y % 100 != 0 || y % 400 == 0)

def daysInMonth (y m : Nat) : Nat :=
  if m == 2 then (if leap y then 29 else 28) else if m == 4 || m == 6 || m == 9 || m == 11 then 30 else 31

/-- The day after. -/
def next (d : Date) : Date :=
  if d.day < daysInMonth d.year d.month then { d with day := d.day + 1 }
  else if d.month < 12 then ⟨d.year, d.month + 1, 1⟩
  else ⟨d.year + 1, 1, 1⟩

/-- The date that many days after 1970-01-01. -/
def ofDays : Nat → Date
  | 0 => ⟨1970, 1, 1⟩
  | n + 1 => (ofDays n).next

end Date

/-! ## Texts -/

def digit (n : Nat) : Char := Char.ofNat (48 + n % 10)

/-- A number as `w` decimal digits, with leading zeros. -/
def digits : Nat → Nat → List Char
  | 0, _ => []
  | w + 1, n => digits w (n / 10) ++ [digit n]

def second : Nat := 1000000
def day : Nat := 86400 * second

/-- `datetime.isoformat()` with `Z` for the offset: microseconds only when there are any. -/
def isoText (t : Instant) : List Char :=
  let d := Date.ofDays (t / day)
  let s := t % day / second
  let us := t % second
  digits 4 d.year ++ ['-'] ++ digits 2 d.month ++ ['-'] ++ digits 2 d.day ++ ['T'] ++
    digits 2 (s / 3600) ++ [':'] ++ digits 2 (s / 60 % 60) ++ [':'] ++ digits 2 (s % 60) ++
    (if us = 0 then [] else '.' :: digits 6 us) ++ ['Z']

example : isoText 0 = "1970-01-01T00:00:00Z".toList := by decide

example : isoText (day * 59 + 3661000001) = "1970-03-01T01:01:01.000001Z".toList := by decide +kernel

end Docich.GameSwitch
