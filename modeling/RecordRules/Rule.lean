/-
# Stored rules

A validation rule requires fields when its condition holds, an assignment rule
assigns values to fields. What a rule that applies leads to is for the host to
decide; only the condition is evaluated here. A rule without a condition, or with
a blank one, always applies.

Key definitions: `Rule`, `Rule.condition?`, `Rule.ofJson?`, `Rule.toJson`.
-/
import RecordRules.Json.Basic
import RecordRules.Text.Blank

namespace RecordRules

/-- A stored rule: its condition as it was given, and what it leads to. -/
inductive Rule where
  | validation (condition : Option String) (required : List String)
  | assignment (condition : Option String) (assigned : List (String × Json))

/-- The kinds of rule. -/
inductive RuleKind where
  | validation
  | assignment
deriving DecidableEq

namespace Rule

/-- The condition as it was given. -/
def given : Rule → Option String
  | validation condition _ => condition
  | assignment condition _ => condition

/-- The condition, unless the rule always applies. -/
def condition? (rule : Rule) : Option String :=
  rule.given.filter fun text => !Text.allBlank text.toList

/-! ### Storage -/

/-- The members of a stored rule of that kind: its condition, and what it leads to. -/
def memberNames : RuleKind → List String
  | .validation => ["if", "then_required"]
  | .assignment => ["when", "assign"]

/-- A stored condition: a text; absent and null are none. -/
def conditionOfJson? (member : Option Json) : Option (Option String) :=
  (member.bind Json.nonNull?).mapM Json.string?

/-- The rule of that kind that a JSON value stores. -/
def ofJson? (kind : RuleKind) (j : Json) : Option Rule := do
  match kind, ← j.fields? (memberNames kind) true with
  | .validation, [condition, required] =>
    return validation (← conditionOfJson? condition) (← (required.getD (.array [])).strings?)
  | .assignment, [condition, assigned] =>
    return assignment (← conditionOfJson? condition) (← (← assigned).object?)
  | _, _ => none

/-- The member that stores a condition; without a condition there is none. -/
def conditionMember (name : String) : Option String → List (String × Json)
  | some text => [(name, .string text)]
  | none => []

/-- A rule as JSON. -/
def toJson : Rule → Json
  | validation condition required =>
    .object (conditionMember "if" condition ++
      [("then_required", .array (required.map .string))])
  | assignment condition assigned =>
    .object (conditionMember "when" condition ++ [("assign", .object assigned)])

end Rule
end RecordRules
