/-
# Values of record fields

The closed set of values a record can hold. Numbers are binary64, decimals keep
their text, dates are instants, and maps hold their entries in ascending order
of name. `Value.WellFormed` says the last of these at every depth; everything
that builds values keeps it.

Two values are the `same` when they have one form throughout: numbers by
binary64 equality, decimals by their text, dates to the nanosecond. Whether two
values count as equal in an expression is another question (`Value.deepEqual`).

Key definitions: `Value`, `Value.typeName`, `Value.WellFormed`, `Value.same`.
-/
import RecordRules.Binary64.Basic
import RecordRules.Decimal
import RecordRules.Instant.Basic
import RecordRules.Keyed

namespace RecordRules

/-- A value of a record field. -/
inductive Value where
  | null
  | bool (b : Bool)
  | number (x : Binary64)
  | decimal (d : Decimal)
  | string (s : String)
  | date (t : Instant)
  | array (items : List Value)
  | map (entries : List (String × Value))
deriving Inhabited

/-- The fields of a record by name, in ascending order. -/
abbrev Record := List (String × Value)

namespace Value

/-- The name of the kind of value, as messages give it. -/
def typeName : Value → String
  | null => "null"
  | bool _ => "boolean"
  | number _ => "number"
  | decimal _ => "decimal"
  | string _ => "string"
  | date _ => "date"
  | array _ => "array"
  | map _ => "object"

/-! ### Views -/

def isNull : Value → Bool
  | null => true
  | _ => false

def string? : Value → Option String
  | string s => some s
  | _ => none

def items? : Value → Option (List Value)
  | array items => some items
  | _ => none

def entries? : Value → Option (List (String × Value))
  | map entries => some entries
  | _ => none

/-! ### Form -/

mutual

/-- Every map in the value has its entries in ascending order. -/
def WellFormed : Value → Prop
  | array items => itemsWellFormed items
  | map entries => Keyed.Ascending entries ∧ entriesWellFormed entries
  | _ => True

def itemsWellFormed : List Value → Prop
  | [] => True
  | item :: rest => item.WellFormed ∧ itemsWellFormed rest

def entriesWellFormed : List (String × Value) → Prop
  | [] => True
  | (_, value) :: rest => value.WellFormed ∧ entriesWellFormed rest

end

mutual

/-- The two values have one form. -/
def same : Value → Value → Bool
  | null, null => true
  | bool a, bool b => a == b
  | number x, number y => x.eq y
  | decimal a, decimal b => a == b
  | string a, string b => a == b
  | date a, date b => a == b
  | array xs, array ys => sameItems xs ys
  | map xs, map ys => sameEntries xs ys
  | _, _ => false

def sameItems : List Value → List Value → Bool
  | [], [] => true
  | x :: xs, y :: ys => same x y && sameItems xs ys
  | _, _ => false

/-- The two lists have the same names with the same values. -/
def sameEntries : List (String × Value) → List (String × Value) → Bool
  | [], [] => true
  | (name, x) :: xs, (name', y) :: ys => name == name' && same x y && sameEntries xs ys
  | _, _ => false

end

theorem itemsWellFormed_iff {items : List Value} :
    itemsWellFormed items ↔ ∀ item ∈ items, item.WellFormed := by
  induction items with
  | nil => simp [itemsWellFormed]
  | cons item rest ih => simp [itemsWellFormed, ih]

theorem entriesWellFormed_iff {entries : List (String × Value)} :
    entriesWellFormed entries ↔ ∀ entry ∈ entries, entry.2.WellFormed := by
  induction entries with
  | nil => simp [entriesWellFormed]
  | cons entry rest ih => simp [entriesWellFormed, ih]

end Value
end RecordRules
