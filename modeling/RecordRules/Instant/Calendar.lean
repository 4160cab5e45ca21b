/-
# The proleptic Gregorian calendar

Dates and the count of days since 1 January 1970. The calendar repeats every
400 years, which have 146097 days; a cycle starts in a year 1 modulo 400, so
that the leap days fall on the last year of each four, each hundred and the
whole cycle. The year 0 exists, and the rules hold for all years before and
after it.

Key definitions: `Date`, `Date.toDays`, `Date.ofDays`, `Date.Valid`.
-/

namespace RecordRules

/-- A day of the calendar by year, month 1 to 12 and day of the month. -/
structure Date where
  year : Int
  month : Nat
  day : Nat
deriving DecidableEq

namespace Date

/-- A year with a 29 February. -/
def isLeap (year : Int) : Bool := year % 4 = 0 && (year % 100 ≠ 0 || year % 400 = 0)

/-- The lengths of the months in order. -/
def monthLengths (leap : Bool) : List Nat :=
  [31, if leap then 29 else 28, 31, 30, 31, 30, 31, 31, 30, 31, 30, 31]

/-- The calendar has that day. -/
def isValid (date : Date) : Bool :=
  1 ≤ date.month && 1 ≤ date.day &&
    date.day ≤ (monthLengths (isLeap date.year)).getD (date.month - 1) 0

/-- The days from 1 January of the year 1 to 1 January of that year. -/
def daysBeforeYear (year : Int) : Int :=
  let past := year - 1
  365 * past + past / 4 - past / 100 + past / 400

/-- The days from 1 January of the year 1 to 1 January 1970. -/
def epochDays : Int := 719162

/-- The days since 1 January 1970. -/
def toDays (date : Date) : Int :=
  let before : Nat := ((monthLengths (isLeap date.year)).take (date.month - 1)).foldl (· + ·) 0
  daysBeforeYear date.year + before + (date.day - 1 : Nat) - epochDays

/-- The month and the day of the month, from the days since the first of the month that `lengths`
starts with. -/
def monthAndDay (month : Nat) : List Nat → Nat → Nat × Nat
  | [], rest => (month, rest + 1)
  | length :: lengths, rest =>
    if rest < length then (month, rest + 1) else monthAndDay (month + 1) lengths (rest - length)

/-- The date that many days after 1 January 1970. -/
def ofDays (days : Int) : Date :=
  let sinceOne := days + epochDays
  let cycle := sinceOne / 146097
  let inCycle := (sinceOne % 146097).toNat
  let century := min 3 (inCycle / 36524)
  let inCentury := inCycle - century * 36524
  let four := inCentury / 1461
  let inFour := inCentury - four * 1461
  let single := min 3 (inFour / 365)
  let year : Int := cycle * 400 + (century * 100 + four * 4 + single : Nat) + 1
  let (month, day) := monthAndDay 1 (monthLengths (isLeap year)) (inFour - single * 365)
  ⟨year, month, day⟩

example : toDays ⟨1970, 1, 1⟩ = 0 := by decide
example : toDays ⟨2000, 2, 29⟩ = 11016 := by decide
example : ofDays 11016 = ⟨2000, 2, 29⟩ := by decide
example : ofDays (-719528) = ⟨0, 1, 1⟩ := by decide
example : ofDays (-719529) = ⟨-1, 12, 31⟩ := by decide

end Date
end RecordRules
