/-
# Reading instants and dates

Two notations. A *timestamp* is a date of four, two and two digits, `T` or a
space, a time with seconds and a fraction if wanted, and the offset from
universal time: `2024-03-01T12:00:00.25+01:00`, or `Z` for none. A *plain date*
is year, month and day with fewer digits allowed, blanks allowed before each
number and a sign before the year; it stands for midnight in universal time.

Each reader of a part takes the text and gives the part and the text behind it.

Key definitions: `Instant.readTimestamp?`, `Instant.readDate?`.
-/
import RecordRules.Instant.Basic
import RecordRules.Text.Blank
import RecordRules.Text.Digits

namespace RecordRules.Instant

/-- A number of exactly that many digits. -/
def digits? (count : Nat) (cs : List Char) : Option (Nat × List Char) :=
  let digits := cs.take count
  if digits.length = count ∧ digits.all Char.isDigit then
    some (Nat.ofDigitChars 10 digits 0, cs.drop count)
  else
    none

/-- The text behind that character. -/
def skip? (c : Char) : List Char → Option (List Char)
  | [] => none
  | first :: rest => if first = c then some rest else none

/-- A date that the calendar has, in four, two and two digits. -/
def readFullDate? (cs : List Char) : Option (Date × List Char) := do
  let (year, cs) ← digits? 4 cs
  let cs ← skip? '-' cs
  let (month, cs) ← digits? 2 cs
  let cs ← skip? '-' cs
  let (day, cs) ← digits? 2 cs
  let date : Date := ⟨year, month, day⟩
  if date.isValid then some (date, cs) else none

/-- A time of the day in seconds, where second 60 is allowed and is what the flag reports. -/
def readTime? (cs : List Char) : Option (Nat × Bool × List Char) := do
  let (hour, cs) ← digits? 2 cs
  let cs ← skip? ':' cs
  let (minute, cs) ← digits? 2 cs
  let cs ← skip? ':' cs
  let (second, cs) ← digits? 2 cs
  if hour ≤ 23 ∧ minute ≤ 59 ∧ second ≤ 60 then
    some (hour * 3600 + minute * 60 + min second 59, second = 60, cs)
  else
    none

/-- The nanoseconds that digits behind a point stand for; those behind the ninth are dropped. -/
def nanosOf (digits : List Char) : Nat :=
  Nat.ofDigitChars 10 (digits.take 9) 0 * 10 ^ (9 - (digits.take 9).length)

theorem nanosOf_lt {digits : List Char} (h : digits.all Char.isDigit = true) :
    nanosOf digits < 10 ^ (9 : Nat) := by
  have kept : (digits.take 9).all Char.isDigit = true := by
    rw [List.all_eq_true] at h ⊢
    exact fun c mem => h c (List.mem_of_mem_take mem)
  have short : (digits.take 9).length ≤ 9 := List.length_take ▸ Nat.min_le_left 9 _
  calc nanosOf digits
      < 10 ^ (digits.take 9).length * 10 ^ (9 - (digits.take 9).length) :=
        Nat.mul_lt_mul_of_pos_right (Text.ofDigitChars_lt kept) (Nat.pow_pos (by decide))
    _ = 10 ^ (9 : Nat) := by rw [← Nat.pow_add, Nat.add_sub_cancel' short]

/-- The nanoseconds of a fraction: none without a point, and a point has digits behind it. -/
def readFraction? : List Char → Option ({ n : Nat // n < 10 ^ (9 : Nat) } × List Char)
  | '.' :: cs =>
    let digits := cs.takeWhile Char.isDigit
    if digits.isEmpty then none
    else some (⟨nanosOf digits, nanosOf_lt List.all_takeWhile⟩, cs.dropWhile Char.isDigit)
  | cs => some (⟨0, by decide⟩, cs)

/-- The seconds that the local clock is ahead of universal time, up to the end of the text. -/
def readOffset? : List Char → Option Int
  | [] => none
  | sign :: cs =>
    if sign = 'Z' ∨ sign = 'z' then
      if cs.isEmpty then some 0 else none
    else if sign = '+' ∨ sign = '-' ∨ sign = '\u2212' then do
      let (hour, cs) ← digits? 2 cs
      let cs ← skip? ':' cs
      let (minute, cs) ← digits? 2 cs
      if cs.isEmpty ∧ hour ≤ 23 ∧ minute ≤ 59 then
        let offset : Int := (hour * 3600 + minute * 60 : Nat)
        some (if sign = '+' then offset else -offset)
      else none
    else none

/-- Reads a whole text as a timestamp. -/
def readTimestamp? (cs : List Char) : Option Instant := do
  let (date, cs) ← readFullDate? cs
  let (separator, cs) ← match cs with
    | c :: rest => some (c, rest)
    | [] => none
  if separator = 'T' ∨ separator = 't' ∨ separator = ' ' then
    let (ofDay, leap, cs) ← readTime? cs
    let (nanos, cs) ← readFraction? cs
    let offset ← readOffset? cs
    some ⟨date.toDays * 86400 + ofDay - offset, nanos.val + if leap then 10 ^ (9 : Nat) else 0, by
      have := nanos.property
      split <;> omega⟩
  else
    none

/-- The years of plain dates, first and last. -/
def firstYear : Int := -262143
def lastYear : Int := 262142

/-- One number of a plain date: blanks, then up to `most` digits, one at least. -/
def upTo? (most : Nat) (cs : List Char) : Option (Nat × List Char) :=
  let digits := (cs.takeWhile Char.isDigit).take most
  if digits.isEmpty then none
  else some (Nat.ofDigitChars 10 digits 0, cs.drop digits.length)

/-- The year of a plain date: four digits at most, unless it has a sign. -/
def readYear? : List Char → Option (Int × List Char)
  | '-' :: cs => (upTo? cs.length cs).map fun (n, rest) => (-(n : Int), rest)
  | '+' :: cs => (upTo? cs.length cs).map fun (n, rest) => ((n : Int), rest)
  | cs => (upTo? 4 cs).map fun (n, rest) => ((n : Int), rest)

/-- Reads a whole text as a plain date. -/
def readDate? (cs : List Char) : Option Instant := do
  let (year, cs) ← readYear? (Text.trimStart cs)
  let cs ← skip? '-' cs
  let (month, cs) ← upTo? 2 (Text.trimStart cs)
  let cs ← skip? '-' cs
  let (day, cs) ← upTo? 2 (Text.trimStart cs)
  let date : Date := ⟨year, month, day⟩
  if cs.isEmpty ∧ firstYear ≤ year ∧ year ≤ lastYear ∧ date.isValid then some (.ofDate date)
  else none

end RecordRules.Instant
