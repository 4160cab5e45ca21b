/-
# Formulas as JSON

A formula is stored as its tree and the two sets of names, each an array of
texts in ascending order. Reading takes the sets in any order and with
repetitions.

Key definitions: `Formula.toJson`, `Formula.ofJson?`.
-/
import RecordRules.Formula
import RecordRules.Expr.Json

namespace RecordRules

/-- A set of names as JSON. -/
def NameSet.toJson (names : NameSet) : Json := .array (names.toList.map .string)

namespace Formula

/-- The members of a stored formula. -/
def memberNames : List String := ["ast", "identifiers", "functions"]

/-- A formula as JSON. -/
def toJson (formula : Formula) : Json :=
  .object [("ast", formula.expr.toJson), ("identifiers", formula.names.fields.toJson),
    ("functions", formula.names.functions.toJson)]

/-- The formula that a JSON value stores. -/
def ofJson? (j : Json) : Option Formula := do
  match ← j.fields? memberNames false with
  | [some ast, some fields, some functions] =>
    return ⟨← Expr.ofJson? ast, .ofList (← fields.strings?), .ofList (← functions.strings?)⟩
  | _ => none

end Formula
end RecordRules
