/-
# A pending change of a record

The fields of a record as a change would leave them, and as they are before it
unless the change creates the record. A field is looked up after the change
first, so a field that the change leaves out keeps counting with its value from
before, while one that it sets to null is null.

A change is read from two plain JSON objects, or as one JSON object with tagged
values, which is also how it is stored.

Key definitions: `Change`, `Change.find?`, `Change.ofPlain`, `Change.ofTagged?`,
`Change.toTagged`.
-/
import RecordRules.Record.Path
import RecordRules.Value.Json

namespace RecordRules

/-- A record before and after a change; there is no before when the change creates it. -/
structure Change where
  before : Option Record
  after : Record

/-- Why two JSON values are not a change: the record on that side is of another kind. -/
inductive ChangeError where
  | notAnObject (side found : String)
deriving DecidableEq

/-- The wording of the error. -/
def ChangeError.message : ChangeError → String
  | .notAnObject side found => s!"Snapshot '{side}' must be a JSON object, got {found}"

namespace Change

/-- The value at a path before the change. -/
def findBefore? (change : Change) (path : String) : Option Value :=
  change.before.bind fun record => record.find? path

/-- The value at a path after the change. -/
def findAfter? (change : Change) (path : String) : Option Value := change.after.find? path

/-- The value at a path after the change, or else before it. -/
def find? (change : Change) (path : String) : Option Value :=
  (change.findAfter? path).or (change.findBefore? path)

/-- The two changes have one form on each side. -/
def same (a b : Change) : Bool :=
  Value.sameEntries a.after b.after &&
    match a.before, b.before with
    | none, none => true
    | some x, some y => Value.sameEntries x y
    | _, _ => false

/-! ### Plain JSON -/

/-- A side of a change. -/
def recordOfPlain (side : String) (j : Json) : Except ChangeError Record :=
  match Value.ofPlain j with
  | .map entries => .ok entries
  | other => .error (.notAnObject side other.typeName)

/-- The change from one JSON object to another; without the first, or with null for it, it is a
creation. -/
def ofPlain (before : Option Json) (after : Json) : Except ChangeError Change := do
  let before ← (before.bind Json.nonNull?).mapM (recordOfPlain "before")
  let after ← recordOfPlain "after" after
  return ⟨before, after⟩

/-! ### Tagged JSON -/

/-- A side of a stored change. A record is never itself a tagged value. -/
def recordOfTagged? : Json → Option Record
  | .object members => some (Keyed.ofList (Value.entriesOfTagged members))
  | _ => none

/-- Reads a stored change. -/
def ofTagged? (j : Json) : Option Change := do
  match ← j.fields? ["before", "after"] false with
  | [before, after] =>
    let before ← (before.bind Json.nonNull?).mapM recordOfTagged?
    let after ← recordOfTagged? (← after)
    return ⟨before, after⟩
  | _ => none

/-- The change as it is stored. -/
def toTagged (change : Change) : Json :=
  .object [
    ("before", change.before.elim .null fun record => .object (Value.entriesToTagged record)),
    ("after", .object (Value.entriesToTagged change.after))]

end Change
end RecordRules
