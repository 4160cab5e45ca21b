/-
# Tokens of a text

A text falls into blanks and lexemes, the longest lexeme at each place. A token
is a lexeme and where it stands: its first and last byte offset, and the line and
column of its first character. Lines end at line feeds between lexemes; a line
feed within quotes is a character of the string and only moves the column.

Key definitions: `Token`, `Lexeme.first`, `Token.scan`.
-/
import RecordRules.SyntaxError
import RecordRules.Text.Blank

namespace RecordRules

/-- Where a token stands: byte offsets of its start and end, line and column of its start. -/
structure Span where
  start : Nat
  stop : Nat
  line : Nat
  column : Nat
deriving DecidableEq

/-- The place before any text. -/
def Span.origin : Span := ⟨0, 0, 1, 1⟩

/-- A lexeme in its place. -/
structure Token where
  lexeme : Lexeme
  span : Span
deriving DecidableEq

/-! ### Lexemes -/

/-- A character that a name can start with. -/
def isNameStart (c : Char) : Bool := c.isAlpha || c = '_'

/-- A character that a name can go on with. -/
def isNameChar (c : Char) : Bool := c.isAlphanum || c = '_' || c = '.'

/-- A character that a run of digits can go on with. -/
def isNumberChar (c : Char) : Bool := c.isDigit || c = '.'

/-- The words that are no names, whatever their case. -/
def keywords : List (String × Lexeme) :=
  [("true", .boolean true), ("false", .boolean false), ("null", .null),
   ("and", .connective .and), ("or", .connective .or),
   ("in", .comparison .memberOf), ("contains", .comparison .contains)]

/-- The keyword that a word is, if it is one. -/
def keyword? (word : List Char) : Option Lexeme :=
  keywords.lookup (String.ofList (word.map Char.toLower))

/-- The text within quotes, from the first character behind the opening quote, and how many
characters it takes with the closing one. A backslash stands for the character behind it. -/
def unquote? (quote : Char) : List Char → Option (List Char × Nat)
  | [] => none
  | [c] => if c = quote then some ([], 1) else none
  | c :: next :: rest =>
    if c = quote then some ([], 1)
    else if c = '\\' then
      (unquote? quote rest).map fun (body, length) => (next :: body, length + 2)
    else
      (unquote? quote (next :: rest)).map fun (body, length) => (c :: body, length + 1)

/-- The lexeme of two equal characters or of a character and an equals sign. -/
def pair (offset : Nat) (c second : Char) (lexeme : Lexeme) (rest : List Char) :
    Except SyntaxFault (Lexeme × Nat) :=
  if rest.head? = some second then .ok (lexeme, 1) else .error (.unexpectedCharacter c offset)

/-- The lexeme that starts with `c` at that offset, and how many characters behind `c` belong to
it. -/
def Lexeme.first (offset : Nat) (c : Char) (rest : List Char) :
    Except SyntaxFault (Lexeme × Nat) :=
  match c with
  | '(' => .ok (.openParen, 0)
  | ')' => .ok (.closeParen, 0)
  | '[' => .ok (.openBracket, 0)
  | ']' => .ok (.closeBracket, 0)
  | ',' => .ok (.comma, 0)
  | '=' => pair offset c '=' (.comparison .equal) rest
  | '!' => pair offset c '=' (.comparison .notEqual) rest
  | '&' => pair offset c '&' (.connective .and) rest
  | '|' => pair offset c '|' (.connective .or) rest
  | '>' =>
    if rest.head? = some '=' then .ok (.comparison .greaterOrEqual, 1)
    else .ok (.comparison .greater, 0)
  | '<' =>
    if rest.head? = some '=' then .ok (.comparison .lessOrEqual, 1)
    else .ok (.comparison .less, 0)
  | _ =>
    if c = '"' ∨ c = '\'' then
      match unquote? c rest with
      | some (body, length) => .ok (.string (String.ofList body), length)
      | none => .error (.unterminatedString offset)
    else if c.isDigit ∨ (c = '-' ∧ rest.head?.any Char.isDigit) then
      let run := rest.takeWhile isNumberChar
      .ok (.number (String.ofList (c :: run)), run.length)
    else if isNameStart c then
      let run := rest.takeWhile isNameChar
      .ok ((keyword? (c :: run)).getD (.name (String.ofList (c :: run))), run.length)
    else
      .error (.unexpectedCharacter c offset)

/-! ### Places -/

/-- A place between characters. -/
structure Position where
  offset : Nat
  line : Nat
  column : Nat
deriving DecidableEq

namespace Position

/-- The place before the first character. -/
def origin : Position := ⟨0, 1, 1⟩

/-- The place behind a blank. -/
def pastBlank (p : Position) (c : Char) : Position :=
  if c = '\n' then ⟨p.offset + c.utf8Size, p.line + 1, 1⟩
  else ⟨p.offset + c.utf8Size, p.line, p.column + 1⟩

/-- The place behind the characters of a lexeme. -/
def pastLexeme (p : Position) (cs : List Char) : Position :=
  ⟨cs.foldl (fun offset c => offset + c.utf8Size) p.offset, p.line, p.column + cs.length⟩

end Position

/-! ### Scanning -/

/-- The tokens of the characters from a place on, `finish` last. -/
def Token.scanFrom (p : Position) (cs : List Char) : Except SyntaxError (List Token) :=
  match cs with
  | [] => .ok [⟨.finish, p.offset, p.offset, p.line, p.column⟩]
  | c :: rest =>
    if Text.isBlank c then scanFrom (p.pastBlank c) rest
    else
      match Lexeme.first p.offset c rest with
      | .error fault => .error ⟨fault, p.line, p.column⟩
      | .ok (lexeme, used) =>
        let next := p.pastLexeme (c :: rest.take used)
        match scanFrom next (rest.drop used) with
        | .error e => .error e
        | .ok tokens => .ok (⟨lexeme, p.offset, next.offset, p.line, p.column⟩ :: tokens)
termination_by cs.length
decreasing_by all_goals (simp only [List.length_drop, List.length_cons]; omega)

/-- The tokens of a text, `finish` last. -/
def Token.scan (source : String) : Except SyntaxError (List Token) :=
  scanFrom .origin source.toList

end RecordRules
