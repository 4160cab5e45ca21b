/-
# The canonical text of an expression

One spelling for every tree: words for the connectives, single quotes, blanks
around operators and behind commas, and parentheses only where the tree would
otherwise be another. Operators of one rank group to the left, so a right
operand of the same rank needs them and a left one does not. NaN and the
infinities have no spelling of their own; the one is written as a run of digits
that is no number, the others as digits beyond the last finite number.

Key definitions: `Expr.lexemes`, `Lexeme.canonical`, `Expr.text`.
-/
import RecordRules.Expr
import RecordRules.Binary64.Plain

namespace RecordRules

/-- How tightly a connective binds. -/
def Connective.rank : Connective → Nat
  | or => 1
  | and => 2

/-- How tightly a comparison binds. -/
def comparisonRank : Nat := 3

/-- How tightly the outermost operator binds; whatever has none binds tightest. -/
def Expr.rank : Expr → Nat
  | .connect op _ _ => op.rank
  | .compare _ _ _ => comparisonRank
  | _ => 4

/-- The digits that stand for a number. -/
def Binary64.digits : Binary64 → List Char
  | .nan => "0.0.0".toList
  | .ranked negative rank =>
    if rank = infinityRank then
      (if negative then ['-'] else []) ++ '1' :: List.replicate 400 '0'
    else
      plain (.ranked negative rank)

/-- The lexeme of a literal. -/
def Literal.lexeme : Literal → Lexeme
  | .string s => .string s
  | .number x => .number (String.ofList x.digits)
  | .bool b => .boolean b
  | .null => .null

/-- An opening parenthesis, if one is needed. -/
def openIf (needed : Bool) (rest : List Lexeme) : List Lexeme :=
  if needed then .openParen :: rest else rest

/-- A closing parenthesis, if one is needed. -/
def closeIf (needed : Bool) (rest : List Lexeme) : List Lexeme :=
  if needed then .closeParen :: rest else rest

namespace Expr

/-- The operand needs parentheses on the left of an operator of that rank. -/
def needsOnLeft (rank : Nat) (operand : Expr) : Bool := operand.rank < rank

/-- The operand needs parentheses on the right of an operator of that rank. -/
def needsOnRight (rank : Nat) (operand : Expr) : Bool := operand.rank ≤ rank

mutual

/-- The lexemes of an expression, with those in `rest` behind them. -/
def lexemesBefore (rest : List Lexeme) : Expr → List Lexeme
  | .literal value => value.lexeme :: rest
  | .field path => .name path :: rest
  | .connect op left right =>
    let onLeft := needsOnLeft op.rank left
    let onRight := needsOnRight op.rank right
    openIf onLeft (left.lexemesBefore (closeIf onLeft (.connective op ::
      openIf onRight (right.lexemesBefore (closeIf onRight rest)))))
  | .compare op left right =>
    let onLeft := needsOnLeft comparisonRank left
    let onRight := needsOnRight comparisonRank right
    openIf onLeft (left.lexemesBefore (closeIf onLeft (.comparison op ::
      openIf onRight (right.lexemesBefore (closeIf onRight rest)))))
  | .call function args => .name function :: .openParen :: listBefore (.closeParen :: rest) args
  | .array items => .openBracket :: listBefore (.closeBracket :: rest) items

/-- The lexemes of a list, with commas between its items. -/
def listBefore (rest : List Lexeme) : List Expr → List Lexeme
  | [] => rest
  | [item] => item.lexemesBefore rest
  | item :: more => item.lexemesBefore (.comma :: listBefore rest more)

end

/-- The lexemes of an expression. -/
def lexemes (e : Expr) : List Lexeme := e.lexemesBefore []

end Expr

/-- A character within single quotes. -/
def escaped (c : Char) : List Char := if c = '\\' ∨ c = '\'' then ['\\', c] else [c]

/-- A text in single quotes. -/
def singleQuoted (cs : List Char) : List Char := '\'' :: cs.flatMap escaped ++ ['\'']

/-- The spelling of a lexeme with the blanks around it. -/
def Lexeme.canonical : Lexeme → List Char
  | .openParen => ['(']
  | .closeParen => [')']
  | .openBracket => ['[']
  | .closeBracket => [']']
  | .comma => [',', ' ']
  | .comparison op => ' ' :: op.symbol.toList ++ [' ']
  | .connective op => ' ' :: op.symbol.toList ++ [' ']
  | .string s => singleQuoted s.toList
  | .number digits => digits.toList
  | .boolean true => "true".toList
  | .boolean false => "false".toList
  | .null => "null".toList
  | .name path => path.toList
  | .finish => []

/-- The canonical text. -/
def Expr.text (e : Expr) : String := String.ofList (e.lexemes.flatMap Lexeme.canonical)

end RecordRules
