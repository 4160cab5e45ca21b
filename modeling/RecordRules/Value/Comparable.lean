/-
# Values in order

The number by which a value is compared with `>`, `>=`, `<` and `<=`: numbers and
decimals by themselves, dates by their milliseconds, and texts by what they say
without the blanks around it, whether a number, a timestamp or a plain date.
Other values and other texts have no place in the order.

Key definition: `Value.comparable?`.
-/
import RecordRules.Value.Basic
import RecordRules.Instant.Read
import RecordRules.Text.Blank

namespace RecordRules

/-- The number a text stands for; the words for NaN and infinity are not numbers here. -/
def numericText? (cs : List Char) : Option Binary64 :=
  (Numeral.read? (Text.trim cs)).map Numeral.toBinary64

/-- The instant a text stands for. -/
def dateText? (cs : List Char) : Option Instant :=
  (Instant.readTimestamp? (Text.trim cs)).or (Instant.readDate? (Text.trim cs))

namespace Value

/-- The place of a date in the order. -/
def millisNumber (t : Instant) : Binary64 := .ofInt t.millis

/-- The number by which a value is compared. -/
def comparable? : Value → Option Binary64
  | .number x => some x
  | .decimal d => some d.toBinary64
  | .date t => some (millisNumber t)
  | .string s => (numericText? s.toList).or ((dateText? s.toList).map millisNumber)
  | _ => none

end Value
end RecordRules
