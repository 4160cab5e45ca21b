/-
# Membership and containment

A value is a member of an array when it equals one of the items. A text
contains a value when the text of the value occurs in it; the text of an array
is that of its items with commas between, where a null item leaves nothing.

Key definitions: `Value.memberOf?`, `Value.contains?`, both `none` when the value
searched is of a kind that has no members.
-/
import RecordRules.Value.Equality
import RecordRules.Value.Json

namespace RecordRules

/-- The characters of `part` occur one after the other in the text. -/
def Text.occursIn (part : List Char) : List Char → Bool
  | [] => part.isEmpty
  | c :: cs => part.isPrefixOf (c :: cs) || occursIn part cs

namespace Value

mutual

/-- The text that a value is searched as. -/
def needle : Value → String
  | .array items => String.intercalate "," (itemNeedles items)
  | value => value.text

/-- The texts of the items of an array that is searched for. -/
def itemNeedles : List Value → List String
  | [] => []
  | .null :: rest => "" :: itemNeedles rest
  | item :: rest => needle item :: itemNeedles rest

end

/-- `left` equals one of the items of `right`. -/
def memberOf? (left right : Value) : Option Bool :=
  match right with
  | .array items => some (items.any fun item => deepEqual left item)
  | _ => none

/-- `right` occurs in the text `left`, or equals one of the items of the array `left`. -/
def contains? (left right : Value) : Option Bool :=
  match left with
  | .string s => some (Text.occursIn right.needle.toList s.toList)
  | .array items => some (items.any fun item => deepEqual item right)
  | _ => none

end Value
end RecordRules
