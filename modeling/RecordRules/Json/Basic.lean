/-
# JSON values

A number is either an integer that fits in 64 bits or a binary64 number,
which are two different values even where they denote one quantity: `10` and
`10.0`. The members of an object form a list; whoever builds an object chooses
their order, and what is read from text has them in ascending order of name
(`Keyed`).

Key definitions: `Json`, `Json.Number`, and the `?` views, which are `none`
when a value is not of the kind they ask for.
-/
import RecordRules.Binary64.Rounding
import RecordRules.Keyed

namespace RecordRules

/-- A number: an integer, or a number with a fraction point or a power of ten. -/
inductive Json.Number where
  | integer (n : Int)
  | float (x : Binary64)
deriving DecidableEq

/-- A JSON value. -/
inductive Json where
  | null
  | bool (b : Bool)
  | number (n : Json.Number)
  | string (s : String)
  | array (items : List Json)
  | object (members : List (String × Json))
deriving Inhabited

namespace Json

/-- The nearest binary64 number. -/
def Number.toBinary64 : Number → Binary64
  | .integer n => .ofInt n
  | .float x => x

/-- A natural number as a JSON integer. -/
def nat (n : Nat) : Json := .number (.integer n)

/-- A binary64 number as JSON: null if it is not finite. -/
def binary64 (x : Binary64) : Json := if x.isFinite then .number (.float x) else .null

/-! ### Views -/

def bool? : Json → Option Bool
  | .bool b => some b
  | _ => none

def string? : Json → Option String
  | .string s => some s
  | _ => none

/-- A number of either kind. -/
def binary64? : Json → Option Binary64
  | .number n => some n.toBinary64
  | _ => none

/-- A natural number below 2^64, written as an integer. -/
def nat? : Json → Option Nat
  | .number (.integer n) => if 0 ≤ n ∧ n < 2 ^ (64 : Nat) then some n.toNat else none
  | _ => none

def array? : Json → Option (List Json)
  | .array items => some items
  | _ => none

def object? : Json → Option (List (String × Json))
  | .object members => some members
  | _ => none

/-- A list of texts. -/
def strings? : Json → Option (List String)
  | .array items => items.mapM string?
  | _ => none

/-- The member of that name; a value that is no object has none. -/
def member? (name : String) : Json → Option Json
  | .object members => members.lookup name
  | _ => none

/-- The value, unless it is `null`. -/
def nonNull? : Json → Option Json
  | .null => none
  | j => some j

/-- The fields of a record of fixed shape, in the order of `names`, each absent or present. A
record is written as an object, whose other members are ignored unless it is `closed`, or as
an array of its first fields in order, which has no room for others. -/
def fields? (names : List String) (closed : Bool) : Json → Option (List (Option Json))
  | .object members =>
    if closed && !members.all (fun member => names.contains member.1) then none
    else some (names.map fun name => members.lookup name)
  | .array items =>
    if names.length < items.length then none
    else some (items.map some ++ List.replicate (names.length - items.length) none)
  | _ => none

end Json
end RecordRules
