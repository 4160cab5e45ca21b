/-
# Expressions as JSON

A node is an object with one member, named for the kind of node: `Literal`,
`Identifier`, `Logical`, `Binary`, `Call` or `Array`. A kind or operator without
content is its name alone, and may also be read from an object whose member of
that name is null. Members that a node does not have are ignored.

Key definitions: `Expr.toJson`, `Expr.ofJson?`.
-/
import RecordRules.Expr
import RecordRules.Json.Basic

namespace RecordRules

/-- A name alone, or as the member of an object that holds null. -/
def unitTag? : Json → Option String
  | .string tag => some tag
  | .object [(tag, .null)] => some tag
  | _ => none

/-! ### Operators -/

/-- The stored names of the comparisons. -/
def Comparison.tag : Comparison → String
  | equal => "Eq"
  | notEqual => "Ne"
  | greater => "Gt"
  | greaterOrEqual => "Ge"
  | less => "Lt"
  | lessOrEqual => "Le"
  | memberOf => "In"
  | contains => "Contains"

/-- Every comparison. -/
def Comparison.all : List Comparison :=
  [equal, notEqual, greater, greaterOrEqual, less, lessOrEqual, memberOf, contains]

/-- The comparison of that stored name. -/
def Comparison.ofTag? (tag : String) : Option Comparison := all.find? fun op => op.tag == tag

/-- The stored names of the connectives. -/
def Connective.tag : Connective → String
  | and => "And"
  | or => "Or"

/-- The connective of that stored name. -/
def Connective.ofTag? (tag : String) : Option Connective :=
  [and, or].find? fun op => op.tag == tag

/-! ### Literals -/

/-- A literal as JSON. -/
def Literal.toJson : Literal → Json
  | string s => .object [("String", .string s)]
  | number x => .object [("Number", .binary64 x)]
  | bool b => .object [("Bool", .bool b)]
  | null => .string "Null"

/-- The literal that a JSON value stores. -/
def Literal.ofJson? (j : Json) : Option Literal :=
  match j with
  | .object [("String", content)] => content.string?.map string
  | .object [("Number", content)] => content.binary64?.map number
  | .object [("Bool", content)] => content.bool?.map bool
  | _ => if unitTag? j = some "Null" then some null else none

/-! ### Nodes -/

namespace Expr

mutual

/-- An expression as JSON. -/
def toJson : Expr → Json
  | literal value => .object [("Literal", value.toJson)]
  | field path => .object [("Identifier", .string path)]
  | connect op left right =>
    .object [("Logical",
      .object [("op", .string op.tag), ("left", left.toJson), ("right", right.toJson)])]
  | compare op left right =>
    .object [("Binary",
      .object [("op", .string op.tag), ("left", left.toJson), ("right", right.toJson)])]
  | call function args =>
    .object [("Call", .object [("name", .string function), ("args", .array (listToJson args))])]
  | array items => .object [("Array", .array (listToJson items))]

def listToJson : List Expr → List Json
  | [] => []
  | e :: rest => e.toJson :: listToJson rest

end

mutual

/-- The expression that a JSON value stores. -/
def ofJson? : Json → Option Expr
  | .object [("Literal", content)] => (Literal.ofJson? content).map literal
  | .object [("Identifier", content)] => content.string?.map field
  | .object [("Array", .array items)] => (listOfJson? items).map array
  | .object [("Logical", .object members)] => do
    let op ← Connective.ofTag? (← unitTag? (← members.lookup "op"))
    let nodes := nodesOf members
    return connect op (← (← nodes.lookup "left")) (← (← nodes.lookup "right"))
  | .object [("Binary", .object members)] => do
    let op ← Comparison.ofTag? (← unitTag? (← members.lookup "op"))
    let nodes := nodesOf members
    return compare op (← (← nodes.lookup "left")) (← (← nodes.lookup "right"))
  | .object [("Call", .object members)] => do
    let function ← (← members.lookup "name").string?
    return call function (← (← (listsOf members).lookup "args"))
  | _ => none

/-- The expressions that the items of an array store, if all do. -/
def listOfJson? : List Json → Option (List Expr)
  | [] => some []
  | j :: rest => do return (← ofJson? j) :: (← listOfJson? rest)

/-- The members, each with the expression it stores. -/
def nodesOf : List (String × Json) → List (String × Option Expr)
  | [] => []
  | (name, j) :: rest => (name, ofJson? j) :: nodesOf rest

/-- The members, each with the list of expressions it stores. -/
def listsOf : List (String × Json) → List (String × Option (List Expr))
  | [] => []
  | (name, .array items) :: rest => (name, listOfJson? items) :: listsOf rest
  | (name, _) :: rest => (name, none) :: listsOf rest

end

end Expr
end RecordRules
