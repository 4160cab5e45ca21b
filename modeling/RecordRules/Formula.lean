/-
# Formulas

An expression together with the names that occur in it: the field paths that a
guard has to be asked about before any field is read, and the functions that it
calls. A formula holds nothing of a record, so one formula serves any number of
evaluations.

Key definitions: `Formula`, `Names`.
-/
import RecordRules.Expr
import RecordRules.NameSet

namespace RecordRules

/-- Names gathered from an expression. -/
structure Names where
  /-- Field paths, those named by literals in path functions among them. -/
  fields : NameSet
  /-- Called functions. -/
  functions : NameSet
deriving DecidableEq

namespace Names

/-- No names. -/
def none : Names := ⟨.empty, .empty⟩

/-- One more field path. -/
def withField (names : Names) (path : String) : Names :=
  { names with fields := names.fields.insert path }

/-- One more call, with the field path that it names by a literal. -/
def withCall (names : Names) (function : String) (args : List Expr) : Names :=
  let named := match Expr.literalPath? function args with
    | some path => names.withField path
    | Option.none => names
  { named with functions := named.functions.insert function }

end Names

/-- An expression and the names in it. -/
structure Formula where
  expr : Expr
  names : Names

end RecordRules
