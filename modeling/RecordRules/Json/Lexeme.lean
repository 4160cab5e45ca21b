/-
# JSON lexemes and their texts

The smallest parts of a JSON text, how each is written, and how a text falls
into them. Strings are written with the short escapes where there are any, the
other control characters as `\u00xx`, and everything else as it is. Reading
takes any escape that the format allows, and leaves the numbers to a reader of
numbers.

Key definitions: `Lexeme`, `Lexeme.text`, `Lexeme.scan`.
-/
import RecordRules.Json.Number

namespace RecordRules.Json

/-- A lexeme. -/
inductive Lexeme where
  | openArray
  | closeArray
  | openObject
  | closeObject
  | comma
  | colon
  | null
  | bool (b : Bool)
  | number (n : Number)
  | string (s : String)
deriving DecidableEq

/-! ### Writing -/

/-- The text of a character within quotes. -/
def escaped (c : Char) : List Char :=
  if c = '"' then ['\\', '"']
  else if c = '\\' then ['\\', '\\']
  else if c = '\x08' then ['\\', 'b']
  else if c = '\x0c' then ['\\', 'f']
  else if c = '\n' then ['\\', 'n']
  else if c = '\r' then ['\\', 'r']
  else if c = '\t' then ['\\', 't']
  else if c < ' ' then
    ['\\', 'u', '0', '0', Nat.digitChar (c.toNat / 16), Nat.digitChar (c.toNat % 16)]
  else [c]

/-- A quoted text. -/
def quoted (cs : List Char) : List Char := '"' :: cs.flatMap escaped ++ ['"']

/-- The text of a lexeme. -/
def Lexeme.text : Lexeme → List Char
  | .openArray => ['[']
  | .closeArray => [']']
  | .openObject => ['\x7b']
  | .closeObject => ['\x7d']
  | .comma => [',']
  | .colon => [':']
  | .null => "null".toList
  | .bool true => "true".toList
  | .bool false => "false".toList
  | .number n => n.text
  | .string s => quoted s.toList

/-! ### Reading -/

/-- A character between lexemes. -/
def isSpace (c : Char) : Bool := c = ' ' || c = '\t' || c = '\n' || c = '\r'

/-- A character that can occur in a number. -/
def isNumberChar (c : Char) : Bool :=
  c.isDigit || c = '-' || c = '+' || c = '.' || c = 'e' || c = 'E'

/-- The value of four hexadecimal digits at the start of a text. -/
def hexQuad? : List Char → Option Nat
  | a :: b :: c :: d :: _ => do
    return (((← Text.hexDigit? a) * 16 + (← Text.hexDigit? b)) * 16 + (← Text.hexDigit? c)) * 16 + (← Text.hexDigit? d)
  | _ => none

/-- The character of a one-letter escape. -/
def shortEscape? : Char → Option Char
  | '"' => some '"'
  | '\\' => some '\\'
  | '/' => some '/'
  | 'b' => some '\x08'
  | 'f' => some '\x0c'
  | 'n' => some '\n'
  | 'r' => some '\r'
  | 't' => some '\t'
  | _ => none

/-- The character of a numeric escape, from the text behind its `\u`, and how many characters it
takes: four digits, or a pair of surrogates, the second with its own `\u`. -/
def numericEscape? (cs : List Char) : Option (Char × Nat) := do
  let high ← hexQuad? cs
  if 0xD800 ≤ high ∧ high < 0xDC00 then
    match cs.drop 4 with
    | '\\' :: 'u' :: rest =>
      let low ← hexQuad? rest
      if 0xDC00 ≤ low ∧ low < 0xE000 then
        return (Char.ofNat (0x10000 + (high - 0xD800) * 0x400 + (low - 0xDC00)), 10)
      else none
    | _ => none
  else if 0xDC00 ≤ high ∧ high < 0xE000 then none
  else return (Char.ofNat high, 4)

/-- The characters up to the closing quote, and how many characters of the text they and the
quote take. -/
def unquote? (cs : List Char) : Option (List Char × Nat) :=
  match cs with
  | [] => none
  | '"' :: _ => some ([], 1)
  | '\\' :: 'u' :: rest => do
    let (c, used) ← numericEscape? rest
    let (body, length) ← unquote? (rest.drop used)
    return (c :: body, length + used + 2)
  | '\\' :: letter :: rest => do
    let c ← shortEscape? letter
    let (body, length) ← unquote? rest
    return (c :: body, length + 2)
  | c :: rest => do
    if c < ' ' ∨ c = '\\' then none
    let (body, length) ← unquote? rest
    return (c :: body, length + 1)
termination_by cs.length
decreasing_by all_goals (simp only [List.length_drop, List.length_cons]; omega)

/-- The lexeme that starts with `c`, and how many characters behind `c` belong to it. -/
def Lexeme.first? (numbers : NumberReader) (c : Char) (rest : List Char) : Option (Lexeme × Nat) :=
  match c with
  | '[' => some (.openArray, 0)
  | ']' => some (.closeArray, 0)
  | '\x7b' => some (.openObject, 0)
  | '\x7d' => some (.closeObject, 0)
  | ',' => some (.comma, 0)
  | ':' => some (.colon, 0)
  | '"' => (unquote? rest).map fun (body, length) => (.string (String.ofList body), length)
  | 'n' => if "ull".toList.isPrefixOf rest then some (.null, 3) else none
  | 't' => if "rue".toList.isPrefixOf rest then some (.bool true, 3) else none
  | 'f' => if "alse".toList.isPrefixOf rest then some (.bool false, 4) else none
  | c =>
    let run := rest.takeWhile isNumberChar
    (numbers.read? (c :: run)).map fun n => (.number n, run.length)

/-- The lexemes of a text. -/
def Lexeme.scan (numbers : NumberReader) (cs : List Char) : Option (List Lexeme) :=
  match cs with
  | [] => some []
  | c :: rest =>
    if isSpace c then scan numbers rest
    else
      match first? numbers c rest with
      | none => none
      | some (lexeme, used) => (scan numbers (rest.drop used)).map (lexeme :: ·)
termination_by cs.length
decreasing_by all_goals (simp only [List.length_drop, List.length_cons]; omega)

end RecordRules.Json
