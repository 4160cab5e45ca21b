/-
# Lexemes of expressions

The smallest parts of an expression. Operators that are words are known in any
case, and `and` and `or` also have the spellings `&&` and `||`; a lexeme does not
keep which spelling was used. A dotted path is one lexeme, and so is a run of
digits and points, whether or not it is a number.

Key definitions: `Comparison`, `Connective`, `Lexeme`, `Lexeme.description`.
-/

namespace RecordRules

/-- An operator that compares two values. -/
inductive Comparison where
  | equal
  | notEqual
  | greater
  | greaterOrEqual
  | less
  | lessOrEqual
  | memberOf
  | contains
deriving DecidableEq

/-- An operator that joins two conditions. -/
inductive Connective where
  | and
  | or
deriving DecidableEq

/-- The spelling of a comparison. -/
def Comparison.symbol : Comparison → String
  | equal => "=="
  | notEqual => "!="
  | greater => ">"
  | greaterOrEqual => ">="
  | less => "<"
  | lessOrEqual => "<="
  | memberOf => "in"
  | contains => "contains"

/-- The spelling of a connective. -/
def Connective.symbol : Connective → String
  | and => "and"
  | or => "or"

/-- A lexeme; `finish` stands for the end of the expression. -/
inductive Lexeme where
  | openParen
  | closeParen
  | openBracket
  | closeBracket
  | comma
  | comparison (op : Comparison)
  | connective (op : Connective)
  | string (s : String)
  | number (digits : String)
  | boolean (b : Bool)
  | null
  | name (path : String)
  | finish
deriving DecidableEq

/-- The lexeme as messages name it. -/
def Lexeme.description : Lexeme → String
  | openParen => "'('"
  | closeParen => "')'"
  | openBracket => "'['"
  | closeBracket => "']'"
  | comma => "','"
  | comparison op => s!"'{op.symbol}'"
  | connective op => s!"'{op.symbol}'"
  | string s => s!"string '{s}'"
  | number digits => s!"number {digits}"
  | boolean true => "true"
  | boolean false => "false"
  | null => "null"
  | name path => s!"identifier '{path}'"
  | finish => "end of expression"

end RecordRules
