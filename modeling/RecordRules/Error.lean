/-
# Errors

Everything that can keep a rule from an answer, and the wording of each.

Key definitions: `EvalError`, `LimitsError`, `RuleError`, `RuleError.message`.
-/
import RecordRules.SyntaxError
import RecordRules.Record.Change
import RecordRules.Guard

namespace RecordRules

/-- An expression that cannot be evaluated against a change. -/
inductive EvalError where
  | unsupportedFunction (name : String)
  | notComparable (value : String)
  | invalidContainsOperand (found : String)
  | inRequiresArray (found : String)
  | invalidPathArgument (function found : String)
deriving DecidableEq

/-- The wording of the error. -/
def EvalError.message : EvalError → String
  | unsupportedFunction name => s!"Unsupported function: {name}"
  | notComparable value => s!"Value is not comparable: {value}"
  | invalidContainsOperand found =>
    s!"Left side of 'contains' must be a string or an array, got {found}"
  | inRequiresArray found => s!"Right side of 'in' must be an array, got {found}"
  | invalidPathArgument function found => s!"{function}() expects a field path string, got {found}"

/-- Limits that cannot be used. -/
inductive LimitsError where
  /-- A limit has a value that makes no sense. -/
  | invalidValue (field value reason : String)
  /-- The document that states the limits cannot be read. -/
  | unreadable (reason : String)
deriving DecidableEq

/-- The wording of the error. -/
def LimitsError.message : LimitsError → String
  | invalidValue field value reason => s!"Invalid value for {field}: {value} - {reason}"
  | unreadable reason => s!"Failed to parse configuration: {reason}"

/-- Any error of reading, guarding or evaluating a rule. -/
inductive RuleError where
  | parse (error : SyntaxError)
  | eval (error : EvalError)
  | change (error : ChangeError)
  | limits (error : LimitsError)
  | fieldRejected (path : String) (reason : Rejection)
  | sourceTooLong (length most : Nat)
  | cachePoisoned
deriving DecidableEq

namespace RuleError

/-- The wording of the error. -/
def message : RuleError → String
  | parse error => error.message
  | eval error => error.message
  | change error => s!"Context error: {error.message}"
  | limits error => s!"Config error: {error.message}"
  | fieldRejected path reason => s!"Field reference '{path}' rejected: {reason.message}"
  | sourceTooLong length most => s!"Expression is {length} bytes, maximum is {most}"
  | cachePoisoned => "Expression cache lock poisoned"

/-- The text is no expression. -/
def isSyntax : RuleError → Bool
  | parse _ => true
  | _ => false

/-- The expression cannot be evaluated. -/
def isSemantic : RuleError → Bool
  | eval _ => true
  | _ => false

end RuleError
end RecordRules
