/-
# Evaluating formulas

The value of an expression for a change of a record. A field reads as its value
after the change, or else before it, or else null. `and` and `or` look at their
right side only if the left one leaves the answer open; all other operators
evaluate both sides, left first, and then compare them with decimals replaced by
their numbers. Two functions mean something: `changed` says whether a field
differs between before and after, `get` reads a field after the change only.
Both take the path of the field as the value of their first argument and ignore
the others.

A formula holds when its value is truthy. With a guard, all the field paths
that the formula names are asked about first, and nothing is read from the
record if one of them is refused.

Key definitions: `Expr.eval`, `Formula.evaluate`, `evaluate`.
-/
import RecordRules.Error
import RecordRules.Formula.Parse
import RecordRules.Value.Comparable
import RecordRules.Value.Membership

namespace RecordRules

/-- The value of a literal. -/
def Literal.value : Literal → Value
  | string s => .string s
  | number x => .number x
  | bool b => .bool b
  | null => .null

namespace Value

/-- The number by which a value is compared, or why it has none. -/
def comparable (value : Value) : Except EvalError Binary64 :=
  match value.comparable? with
  | some x => .ok x
  | none => .error (.notComparable s!"{value.text} ({value.typeName})")

/-- Whether `left` is a member of `right`. -/
def memberOf (left right : Value) : Except EvalError Bool :=
  match left.memberOf? right with
  | some found => .ok found
  | none => .error (.inRequiresArray right.typeName)

/-- Whether `left` contains `right`. -/
def contains (left right : Value) : Except EvalError Bool :=
  match left.contains? right with
  | some found => .ok found
  | none => .error (.invalidContainsOperand left.typeName)

/-- Compares two values in the order of numbers, the left one first. -/
def ordered (rel : Binary64 → Binary64 → Bool) (left right : Value) : Except EvalError Bool := do
  let x ← left.comparable
  let y ← right.comparable
  return rel x y

end Value

/-- The answer of a comparison about two values. -/
def Comparison.apply : Comparison → Value → Value → Except EvalError Bool
  | equal, left, right => .ok (left.deepEqual right)
  | notEqual, left, right => .ok (!left.deepEqual right)
  | greater, left, right => left.ordered (fun x y => y.lt x) right
  | greaterOrEqual, left, right => left.ordered (fun x y => y.le x) right
  | less, left, right => left.ordered Binary64.lt right
  | lessOrEqual, left, right => left.ordered Binary64.le right
  | memberOf, left, right => left.memberOf right
  | contains, left, right => left.contains right

/-- The left side of a connective settles the answer. -/
def Connective.settledBy : Connective → Bool → Bool
  | and, left => !left
  | or, left => left

namespace Change

/-- The field differs: it is on one side only, or its values are not equal. -/
def changed (change : Change) (path : String) : Bool :=
  match change.findBefore? path, change.findAfter? path with
  | none, none => false
  | some before, some after => !before.normalize.deepEqual after.normalize
  | _, _ => true

/-- The answer of a path function about the field at a path. -/
def apply (change : Change) (path : String) : PathFunction → Value
  | .changed => .bool (change.changed path)
  | .get => (change.findAfter? path).getD .null

end Change

namespace Expr

mutual

/-- The value of an expression for a change. -/
def eval (change : Change) : Expr → Except EvalError Value
  | literal value => .ok value.value
  | field path => .ok ((change.find? path).getD .null)
  | array items =>
    match evalList change items with
    | .ok values => .ok (.array values)
    | .error e => .error e
  | connect op left right =>
    match left.eval change with
    | .error e => .error e
    | .ok leftValue =>
      if op.settledBy leftValue.isTruthy then .ok (.bool leftValue.isTruthy)
      else
        match right.eval change with
        | .error e => .error e
        | .ok rightValue => .ok (.bool rightValue.isTruthy)
  | compare op left right =>
    match left.eval change with
    | .error e => .error e
    | .ok leftValue =>
      match right.eval change with
      | .error e => .error e
      | .ok rightValue =>
        match op.apply leftValue.normalize rightValue.normalize with
        | .error e => .error e
        | .ok answer => .ok (.bool answer)
  | call name args =>
    match PathFunction.ofName? name with
    | none => .error (.unsupportedFunction name)
    | some function =>
      match evalFirst change args with
      | none => .error (.invalidPathArgument name "no argument")
      | some (.error e) => .error e
      | some (.ok (.string path)) => .ok (change.apply path function)
      | some (.ok other) => .error (.invalidPathArgument name other.typeName)

/-- The values of expressions, up to the first that has none. -/
def evalList (change : Change) : List Expr → Except EvalError (List Value)
  | [] => .ok []
  | item :: rest =>
    match item.eval change with
    | .error e => .error e
    | .ok value =>
      match evalList change rest with
      | .error e => .error e
      | .ok values => .ok (value :: values)

/-- The value of the first expression, if there is one. -/
def evalFirst (change : Change) : List Expr → Option (Except EvalError Value)
  | [] => none
  | first :: _ => some (first.eval change)

end

end Expr

/-- The answer of a formula, and the field paths that a guard was asked about on the way. -/
structure Verdict where
  answer : Except RuleError Bool
  asked : List String

namespace Formula

/-- Whether the formula holds for a change, with no guard. -/
def holds (formula : Formula) (change : Change) : Except RuleError Bool :=
  match formula.expr.eval change with
  | .ok value => .ok value.isTruthy
  | .error e => .error (.eval e)

/-- Whether the formula holds for a change, once the guard permits all the fields it names. -/
def evaluate (formula : Formula) (change : Change) : Option Guard → Verdict
  | none => ⟨formula.holds change, []⟩
  | some guard =>
    let checked := guard.check formula.names.fields
    match checked.refused with
    | some (path, reason) => ⟨.error (.fieldRejected path reason), checked.asked⟩
    | none => ⟨formula.holds change, checked.asked⟩

end Formula

/-- Whether the expression that a text spells holds for a change. -/
def evaluate (source : String) (change : Change) (guard : Option Guard) : Verdict :=
  match Formula.parse source with
  | .ok formula => formula.evaluate change guard
  | .error e => ⟨.error (.parse e), []⟩

/-- What a caller sees of the options of an evaluation. -/
def guardSummary (guard : Option Guard) : String :=
  s!"EvaluateOptions \x7b field_validator: {guard.isSome} \x7d"

end RecordRules
