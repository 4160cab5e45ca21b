/-
# Indented JSON text

The layout for readers: every item and member on a line of its own, two spaces
further in than what holds it, a space behind each colon, and nothing between
the brackets of what is empty.

Key definition: `indented`.
-/
import RecordRules.Json.Lexeme

namespace RecordRules.Json

/-- A line break and the spaces of that level. -/
def newLine (level : Nat) : List Char := '\n' :: List.replicate (2 * level) ' '

mutual

/-- The text of a value whose first line starts at that level, with `rest` behind it. -/
def indentedBefore (level : Nat) (rest : List Char) : Json → List Char
  | .null => Lexeme.null.text ++ rest
  | .bool b => (Lexeme.bool b).text ++ rest
  | .number n => (Lexeme.number n).text ++ rest
  | .string s => (Lexeme.string s).text ++ rest
  | .array [] => "[]".toList ++ rest
  | .array items => '[' :: indentedItems (level + 1) (newLine level ++ ']' :: rest) items
  | .object [] => "\x7b\x7d".toList ++ rest
  | .object members =>
    '\x7b' :: indentedMembers (level + 1) (newLine level ++ '\x7d' :: rest) members

/-- The lines of the items. -/
def indentedItems (level : Nat) (rest : List Char) : List Json → List Char
  | [] => rest
  | [item] => newLine level ++ indentedBefore level rest item
  | item :: more =>
    newLine level ++ indentedBefore level (',' :: indentedItems level rest more) item

/-- The lines of the members. -/
def indentedMembers (level : Nat) (rest : List Char) : List (String × Json) → List Char
  | [] => rest
  | [(name, value)] =>
    newLine level ++ quoted name.toList ++ ':' :: ' ' :: indentedBefore level rest value
  | (name, value) :: more =>
    newLine level ++ quoted name.toList ++ ':' :: ' ' ::
      indentedBefore level (',' :: indentedMembers level rest more) value

end

/-- The indented text of a value. -/
def indented (j : Json) : String := String.ofList (indentedBefore 0 [] j)

end RecordRules.Json
