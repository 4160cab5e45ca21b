/-
# Values as JSON

There are two readings of a JSON value. The *plain* one knows the kinds of JSON
alone: decimals and dates leave it as strings, and no string becomes one of
them. The *tagged* one writes a decimal and a date as an object with one member,
`$decimal` or `$date`, and takes such an object with valid text back as what it
stands for; any other object is a map. In both, a number is written with a
fraction even where it is an integer, and a number that is not finite is `null`.

Key definitions: `Value.ofPlain`, `Value.toPlain`, `Value.ofTagged`,
`Value.toTagged`, `Value.text`.
-/
import RecordRules.Value.Basic
import RecordRules.Instant.Text
import RecordRules.Instant.Read
import RecordRules.Json.Text

namespace RecordRules.Value

/-- The member name that marks a decimal. -/
def decimalTag : String := "$decimal"

/-- The member name that marks a date. -/
def dateTag : String := "$date"

/-! ### Plain -/

mutual

/-- The value of a JSON value, tags being ordinary names. -/
def ofPlain : Json → Value
  | .null => .null
  | .bool b => .bool b
  | .number n => .number n.toBinary64
  | .string s => .string s
  | .array items => .array (itemsOfPlain items)
  | .object members => .map (Keyed.ofList (entriesOfPlain members))

def itemsOfPlain : List Json → List Value
  | [] => []
  | item :: rest => ofPlain item :: itemsOfPlain rest

def entriesOfPlain : List (String × Json) → List (String × Value)
  | [] => []
  | (name, j) :: rest => (name, ofPlain j) :: entriesOfPlain rest

end

mutual

/-- The value as JSON, decimals and dates as strings. -/
def toPlain : Value → Json
  | .null => .null
  | .bool b => .bool b
  | .number x => .binary64 x
  | .decimal d => .string d.text
  | .string s => .string s
  | .date t => .string (String.ofList (t.text .millis))
  | .array items => .array (itemsToPlain items)
  | .map entries => .object (entriesToPlain entries)

def itemsToPlain : List Value → List Json
  | [] => []
  | item :: rest => toPlain item :: itemsToPlain rest

def entriesToPlain : List (String × Value) → List (String × Json)
  | [] => []
  | (name, value) :: rest => (name, toPlain value) :: entriesToPlain rest

end

/-! ### Tagged -/

/-- The decimal or date that the members of an object stand for, if they do. -/
def scalarOfTag? : List (String × Json) → Option Value
  | [(name, .string s)] =>
    if name = decimalTag then (Decimal.ofString? s).map .decimal
    else if name = dateTag then (Instant.readTimestamp? s.toList).map .date
    else none
  | _ => none

mutual

/-- The value of a JSON value in which tags stand for decimals and dates. -/
def ofTagged : Json → Value
  | .null => .null
  | .bool b => .bool b
  | .number n => .number n.toBinary64
  | .string s => .string s
  | .array items => .array (itemsOfTagged items)
  | .object members =>
    (scalarOfTag? members).getD (.map (Keyed.ofList (entriesOfTagged members)))

def itemsOfTagged : List Json → List Value
  | [] => []
  | item :: rest => ofTagged item :: itemsOfTagged rest

def entriesOfTagged : List (String × Json) → List (String × Value)
  | [] => []
  | (name, j) :: rest => (name, ofTagged j) :: entriesOfTagged rest

end

mutual

/-- The value as JSON, decimals and dates tagged. -/
def toTagged : Value → Json
  | .null => .null
  | .bool b => .bool b
  | .number x => .binary64 x
  | .decimal d => .object [(decimalTag, .string d.text)]
  | .string s => .string s
  | .date t => .object [(dateTag, .string (String.ofList (t.text .exact)))]
  | .array items => .array (itemsToTagged items)
  | .map entries => .object (entriesToTagged entries)

def itemsToTagged : List Value → List Json
  | [] => []
  | item :: rest => toTagged item :: itemsToTagged rest

def entriesToTagged : List (String × Value) → List (String × Json)
  | [] => []
  | (name, value) :: rest => (name, toTagged value) :: entriesToTagged rest

end

/-! ### Text -/

/-- The value as a message or a search text shows it. -/
def text : Value → String
  | .null => "null"
  | .bool b => if b then "true" else "false"
  | .number x => String.ofList x.plain
  | .decimal d => d.text
  | .string s => s
  | .date t => String.ofList (t.text .millis)
  | .array items => (toPlain (.array items)).write
  | .map entries => (toPlain (.map entries)).write

end RecordRules.Value
