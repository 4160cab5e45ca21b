/-
# Syntax errors

Why a text is no expression, and where. The place is the line and column of the
first character of the offending lexeme; messages that name a position count
bytes instead.

Key definitions: `SyntaxFault`, `SyntaxError`, `SyntaxError.message`.
-/
import RecordRules.Lexeme

namespace RecordRules

/-- What can stay open: a group, an array, or the arguments of a call. -/
inductive Bracket where
  | group
  | array
  | arguments
deriving DecidableEq

/-- What is wrong. -/
inductive SyntaxFault where
  /-- No lexeme starts with that character. -/
  | unexpectedCharacter (c : Char) (offset : Nat)
  /-- A quote has no partner. -/
  | unterminatedString (offset : Nat)
  /-- The expression ends where an operand must come. -/
  | unexpectedEnd
  /-- Another lexeme than an operand. -/
  | unexpectedLexeme (found : Lexeme)
  /-- A lexeme behind a complete expression. -/
  | trailing (found : Lexeme)
  /-- A lexeme in brackets that neither goes on with their content nor closes them. -/
  | unclosed (bracket : Bracket) (found : Lexeme)
  /-- More brackets are open than allowed. -/
  | tooDeep (limit : Nat)
  /-- A fault that a host describes in its own words. -/
  | described (text : String)
deriving DecidableEq

/-- What closes a bracket, as messages say it. -/
def Bracket.closing : Bracket → String
  | group => "')' to close group"
  | array => "']' to close array"
  | arguments => "')' to close argument list"

/-- The wording of a fault. -/
def SyntaxFault.message : SyntaxFault → String
  | unexpectedCharacter c offset => s!"Unexpected character '{c}' at position {offset}"
  | unterminatedString offset => s!"Unterminated string starting at position {offset}"
  | unexpectedEnd => "Unexpected end of expression"
  | unexpectedLexeme found => s!"Unexpected token {found.description}"
  | trailing found => s!"Unexpected token near {found.description}"
  | unclosed bracket found => s!"Expected {bracket.closing}, found {found.description}"
  | tooDeep limit => s!"Expression nests deeper than {limit} levels"
  | described text => text

/-- A fault and its place; lines and columns count from 1. -/
structure SyntaxError where
  fault : SyntaxFault
  line : Nat
  column : Nat
deriving DecidableEq

/-- The wording of the error. -/
def SyntaxError.message (e : SyntaxError) : String :=
  s!"Syntax error at line {e.line}, column {e.column}: {e.fault.message}"

end RecordRules
