/-
# Paths into a record

A path is a text whose points separate segments: `billingAddress.city`,
`contacts.1.email`. The first segment names a field of the record; each further
one names an entry of a map or is the index of an item of an array. An empty
segment is a name like any other. A field that holds null is found, an absent
one is not.

Key definitions: `Path.descend`, `Record.find?`.
-/
import RecordRules.Value.Basic
import RecordRules.Text.Digits
import RecordRules.Text.Pieces

namespace RecordRules

namespace Path

/-- The value that the segments lead to from a value. -/
def descend : Value → List (List Char) → Option Value
  | value, [] => some value
  | .map entries, segment :: rest =>
    (entries.lookup (String.ofList segment)).bind fun value => descend value rest
  | .array items, segment :: rest =>
    (Text.word64? segment).bind fun i => items[i]?.bind fun value => descend value rest
  | _, _ :: _ => none

end Path

/-- The value at a path. -/
def Record.find? (record : Record) (path : String) : Option Value :=
  let (first, rest) := Text.cut '.' path.toList
  (record.lookup (String.ofList first)).bind fun value => Path.descend value rest

end RecordRules
