/-
# Expressions

An expression is a tree of literals, field paths, comparisons, connectives,
calls and arrays. Any name can be called; which calls mean something is not a
question of form.

The names in an expression can be read off the tree: `Expr.Mentions` says which
field paths it names, those it writes in the first argument of a path function
among them, and `Expr.Calls` which functions.

Key definitions: `Literal`, `Expr`, `PathFunction`.
-/
import RecordRules.Lexeme
import RecordRules.Binary64.Basic

namespace RecordRules

/-- A value written in an expression. -/
inductive Literal where
  | string (s : String)
  | number (x : Binary64)
  | bool (b : Bool)
  | null
deriving DecidableEq

/-- An expression. -/
inductive Expr where
  | literal (value : Literal)
  | field (path : String)
  | connect (op : Connective) (left right : Expr)
  | compare (op : Comparison) (left right : Expr)
  | call (function : String) (args : List Expr)
  | array (items : List Expr)
deriving Inhabited

/-- A function whose first argument names a field. -/
inductive PathFunction where
  /-- Whether a field differs between before and after a change. -/
  | changed
  /-- The value of a field after a change. -/
  | get
deriving DecidableEq

/-- The path function that a name calls. -/
def PathFunction.ofName? : String → Option PathFunction
  | "changed" => some changed
  | "get" => some get
  | _ => none

namespace Expr

/-- The field path that a call names by a literal. -/
def literalPath? (function : String) (args : List Expr) : Option String :=
  match PathFunction.ofName? function, args with
  | some _, .literal (.string path) :: _ => some path
  | _, _ => none

/-- The expression names the field path, as an operand or as the literal first argument of a path
function. -/
inductive Mentions (path : String) : Expr → Prop where
  | field : Mentions path (.field path)
  | argument {function args} : literalPath? function args = some path →
      Mentions path (.call function args)
  | connectLeft {op left right} : Mentions path left → Mentions path (.connect op left right)
  | connectRight {op left right} : Mentions path right → Mentions path (.connect op left right)
  | compareLeft {op left right} : Mentions path left → Mentions path (.compare op left right)
  | compareRight {op left right} : Mentions path right → Mentions path (.compare op left right)
  | inCall {function args arg} : arg ∈ args → Mentions path arg → Mentions path (.call function args)
  | inArray {items item} : item ∈ items → Mentions path item → Mentions path (.array items)

/-- The expression calls the function. -/
inductive Calls (function : String) : Expr → Prop where
  | call {args} : Calls function (.call function args)
  | connectLeft {op left right} : Calls function left → Calls function (.connect op left right)
  | connectRight {op left right} : Calls function right → Calls function (.connect op left right)
  | compareLeft {op left right} : Calls function left → Calls function (.compare op left right)
  | compareRight {op left right} : Calls function right → Calls function (.compare op left right)
  | inCall {other args arg} : arg ∈ args → Calls function arg → Calls function (.call other args)
  | inArray {items item} : item ∈ items → Calls function item → Calls function (.array items)

end Expr

/-! ### Form -/

/-- The two literals are of one kind and equal; NaN equals nothing. -/
def Literal.same : Literal → Literal → Bool
  | .string a, .string b => a == b
  | .number x, .number y => x.eq y
  | .bool a, .bool b => a == b
  | .null, .null => true
  | _, _ => false

namespace Expr

mutual

/-- The two trees have one form, with equal literals. -/
def same : Expr → Expr → Bool
  | literal a, literal b => a.same b
  | field p, field q => p == q
  | connect op l r, connect op' l' r' => op == op' && same l l' && same r r'
  | compare op l r, compare op' l' r' => op == op' && same l l' && same r r'
  | call f args, call g args' => f == g && sameList args args'
  | array xs, array ys => sameList xs ys
  | _, _ => false

def sameList : List Expr → List Expr → Bool
  | [], [] => true
  | x :: xs, y :: ys => same x y && sameList xs ys
  | _, _ => false

end

end Expr
end RecordRules
