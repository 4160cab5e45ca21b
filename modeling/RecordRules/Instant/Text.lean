/-
# The text of an instant

Date and time in universal time, as in `2024-03-01T12:00:00.250Z`. Years from 0
to 9999 have four digits, other years a sign and at least four. A leap second
reads as second 60. The fraction has a fixed number of digits or, where the
text must lose nothing, the least of 0, 3, 6 and 9 that does not.

Key definitions: `Fraction`, `Instant.text`.
-/
import RecordRules.Instant.Basic

namespace RecordRules

/-- The digits of a number, with zeros in front up to a width. -/
def padded (width n : Nat) : List Char :=
  let digits := Nat.toDigits 10 n
  List.replicate (width - digits.length) '0' ++ digits

namespace Instant

/-- How a fraction of a second is written. -/
inductive Fraction where
  /-- Three digits, always; the others are dropped. -/
  | millis
  /-- The fewest groups of three digits that lose nothing. -/
  | exact

/-- A year. -/
def yearText (year : Int) : List Char :=
  if 0 ≤ year ∧ year ≤ 9999 then padded 4 year.toNat
  else (if year < 0 then '-' else '+') :: padded 4 year.natAbs

/-- The fraction with its point. -/
def fractionText (fraction : Fraction) (nanos : Nat) : List Char :=
  match fraction with
  | .millis => '.' :: padded 3 (nanos / 10 ^ (6 : Nat))
  | .exact =>
    if nanos = 0 then []
    else if nanos % 10 ^ (6 : Nat) = 0 then '.' :: padded 3 (nanos / 10 ^ (6 : Nat))
    else if nanos % 10 ^ (3 : Nat) = 0 then '.' :: padded 6 (nanos / 10 ^ (3 : Nat))
    else '.' :: padded 9 nanos

/-- Year, month and day. -/
def dateText (date : Date) : List Char :=
  yearText date.year ++ '-' :: padded 2 date.month ++ '-' :: padded 2 date.day

/-- Date and time. -/
def text (fraction : Fraction) (t : Instant) : List Char :=
  let ofDay := t.secondOfDay
  let second := ofDay % 60 + t.nanos / 10 ^ (9 : Nat)
  dateText (Date.ofDays t.days) ++ 'T' :: padded 2 (ofDay / 3600) ++
    ':' :: padded 2 (ofDay / 60 % 60) ++ ':' :: padded 2 second ++
    fractionText fraction (t.nanos % 10 ^ (9 : Nat)) ++ ['Z']

end Instant
end RecordRules
