/-
# Equality and truth of values

What an expression takes as equal and as true. A decimal counts as the number it
is nearest to, alone and at any depth (`normalize` replaces it by that number);
dates count by the millisecond; values of other kinds are equal only within
their kind, arrays item by item and maps entry by entry. NaN equals nothing, so
equality is symmetric and transitive but not reflexive.

Key definitions: `Value.normalize`, `Value.deepEqual`, `Value.isTruthy`.
-/
import RecordRules.Value.Basic

namespace RecordRules.Value

mutual

/-- The value with every decimal replaced by its number. -/
def normalize : Value → Value
  | .decimal d => .number d.toBinary64
  | .array items => .array (normalizeItems items)
  | .map entries => .map (normalizeEntries entries)
  | value => value

def normalizeItems : List Value → List Value
  | [] => []
  | item :: rest => normalize item :: normalizeItems rest

def normalizeEntries : List (String × Value) → List (String × Value)
  | [] => []
  | (name, value) :: rest => (name, normalize value) :: normalizeEntries rest

end

mutual

/-- Equality in an expression. -/
def deepEqual : Value → Value → Bool
  | .null, .null => true
  | .bool a, .bool b => a == b
  | .number x, .number y => x.eq y
  | .number x, .decimal e => x.eq e.toBinary64
  | .decimal d, .number y => d.toBinary64.eq y
  | .decimal d, .decimal e => d.toBinary64.eq e.toBinary64
  | .string a, .string b => a == b
  | .date a, .date b => a.millis == b.millis
  | .array xs, .array ys => deepEqualItems xs ys
  | .map xs, .map ys => deepEqualEntries xs ys
  | _, _ => false

def deepEqualItems : List Value → List Value → Bool
  | [], [] => true
  | x :: xs, y :: ys => deepEqual x y && deepEqualItems xs ys
  | _, _ => false

/-- Entries in ascending order, one by one: the same names, and equal values under each. -/
def deepEqualEntries : List (String × Value) → List (String × Value) → Bool
  | [], [] => true
  | (name, x) :: xs, (name', y) :: ys =>
    name == name' && deepEqual x y && deepEqualEntries xs ys
  | _, _ => false

end

/-- A number that is neither zero nor NaN. -/
def isTruthyNumber (x : Binary64) : Bool := !x.isZero && !x.isNaN

/-- What counts as true: everything but null, false, zero, NaN and the empty text. -/
def isTruthy : Value → Bool
  | .null => false
  | .bool b => b
  | .number x => isTruthyNumber x
  | .decimal d => isTruthyNumber d.toBinary64
  | .string s => s != ""
  | .date _ | .array _ | .map _ => true

end RecordRules.Value
