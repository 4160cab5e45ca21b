/-
# Tracing a rule

A run that shows every step from the text of an expression to its answer: the
tokens, the tree with its names and canonical text, and if files with the state
of a record are given, the answer for them. The first argument is the expression,
the second names the file with the record after the change, the third the one
with the record before it. The run ends at the first failure; what was shown by
then stays.

Key definitions: `Trace.runWith`, `Trace.run`, `Trace.Outcome`.
-/
import RecordRules.Evaluate
import RecordRules.Expr.Json
import RecordRules.Expr.Text
import RecordRules.FileTree
import RecordRules.Json.Indented
import RecordRules.Text.Hidden

namespace RecordRules.Trace

/-- Why a run ends early. -/
inductive Failure where
  /-- There is no expression. -/
  | usage
  /-- The text is no expression. -/
  | expression (error : SyntaxError)
  /-- A file cannot be read. -/
  | unreadable (file : String) (fault : ReadFault)
  /-- A file holds no JSON. -/
  | invalidJson (file : String)
  /-- The files hold no change of a record. -/
  | change (error : ChangeError)
  /-- The expression has no answer for the change. -/
  | evaluation (error : RuleError)

/-- What a run shows, and the failure that ended it, if one did. -/
structure Outcome where
  shown : String
  failure : Option Failure

/-- How to use the command. -/
def usage : String :=
  "Usage: cargo run --bin trace_rule -- <expression> [after.json] [before.json]\n\n" ++
  "Example:\n" ++
  "  cargo run --bin trace_rule -- \"amount >= 50000 and changed('status')\" after.json before.json"

/-- What is said about a failure, a line feed at the end. -/
def Failure.message : Failure → String
  | usage => Trace.usage ++ "\n"
  | expression error => s!"❌ {error.message}\n"
  | unreadable file fault => s!"❌ Failed to read {file}: {fault.message}\n"
  | invalidJson file => s!"❌ Invalid JSON in {file}\n"
  | change error => s!"❌ {error.message}\n"
  | evaluation error => s!"❌ {error.message}\n"

/-- The exit code of a run. -/
def Outcome.code (outcome : Outcome) : Nat := if outcome.failure.isSome then 1 else 0

/-! ### Parts -/

/-- A text with spaces in front up to a width. -/
def padLeft (width : Nat) (text : String) : String :=
  String.ofList (List.replicate (width - text.length) ' ') ++ text

/-- A text with spaces behind up to a width. -/
def padRight (width : Nat) (text : String) : String :=
  text ++ String.ofList (List.replicate (width - text.length) ' ')

/-- The line of a token. -/
def tokenLine (token : Token) : String :=
  s!"  {padLeft 3 (toString token.span.line)}:{padRight 3 (toString token.span.column)} {token.lexeme.description}\n"

/-- A character of a name within quotes. -/
def escapedNameChar (c : Char) : List Char :=
  if c = '\x00' then ['\\', '0']
  else if c = '\t' then ['\\', 't']
  else if c = '\r' then ['\\', 'r']
  else if c = '\n' then ['\\', 'n']
  else if c = '"' then ['\\', '"']
  else if c = '\\' then ['\\', '\\']
  else if Text.isHidden c then
    "\\u\x7b".toList ++ Nat.toDigits 16 c.toNat ++ "\x7d".toList
  else [c]

/-- A name within quotes. -/
def quotedName (name : String) : String :=
  "\"" ++ String.ofList (name.toList.flatMap escapedNameChar) ++ "\""

/-- A set of names on one line. -/
def namesText (names : NameSet) : String :=
  "\x7b" ++ String.intercalate ", " (names.toList.map quotedName) ++ "\x7d"

/-- The heading. -/
def heading : String :=
  "╔═══════════════════════════════════════════════════════════════\n" ++
  "║ RULE EXPRESSION TRACER\n" ++
  "╚═══════════════════════════════════════════════════════════════\n\n"

/-- The expression as it was given. -/
def inputPart (source : String) : String := s!"📝 INPUT EXPRESSION:\n{source}\n\n"

/-- The tree, the names and the canonical text of a formula. -/
def formulaPart (formula : Formula) : String :=
  s!"🌳 STEP 2: AST\n{formula.expr.toJson.indented}\n\n" ++
  s!"  identifiers: {namesText formula.names.fields}\n" ++
  s!"  functions:   {namesText formula.names.functions}\n" ++
  s!"  canonical:   {formula.expr.text}\n\n"

/-- The title of the tokens. -/
def tokensTitle : String := "🔤 STEP 1: TOKENS\n"

/-- The title of the answer. -/
def answerTitle : String := "⚖️  STEP 3: EVALUATION\n"

/-- What is said when there is no record to evaluate against. -/
def noRecordPart : String := "ℹ️  No snapshots given, skipping evaluation.\n"

/-! ### Runs -/

section
variable (decoder : Json.Decoder) (contentOf : String → Except ReadFault String)

/-- The JSON value in a file. -/
def readJson (file : String) : Except Failure Json :=
  match contentOf file with
  | .error fault => .error (.unreadable file fault)
  | .ok text =>
    match decoder.read? text with
    | some j => .ok j
    | none => .error (.invalidJson file)

/-- The change that the files hold. -/
def readChange (after : String) (before : Option String) : Except Failure Change := do
  let after ← readJson decoder contentOf after
  let before ← before.mapM (readJson decoder contentOf)
  match Change.ofPlain before after with
  | .ok change => .ok change
  | .error e => .error (.change e)

/-- The part of a run that evaluates a formula for the files named in the arguments. -/
def answerPart (formula : Formula) : List String → Outcome
  | [] => ⟨noRecordPart, none⟩
  | after :: others =>
    match readChange decoder contentOf after others.head? with
    | .error failure => ⟨"", some failure⟩
    | .ok change =>
      match formula.holds change with
      | .ok answer => ⟨answerTitle ++ s!"  result: {answer}\n", none⟩
      | .error e => ⟨answerTitle, some (.evaluation e)⟩

/-- The part of a run that shows the formula and what follows from it. -/
def sourcePart (source : String) (files : List String) : Outcome :=
  match Token.scan source with
  | .error e => ⟨tokensTitle, some (.expression e)⟩
  | .ok tokens =>
    let tokensShown := tokensTitle ++ String.join (tokens.map tokenLine) ++ "\n"
    match Formula.ofTokens none tokens with
    | .error e => ⟨tokensShown, some (.expression e)⟩
    | .ok formula =>
      let rest := answerPart decoder contentOf formula files
      ⟨tokensShown ++ formulaPart formula ++ rest.shown, rest.failure⟩

/-- A run with those arguments whose files are read by that decoder. -/
def runWith : List String → Outcome
  | [] => ⟨"", some .usage⟩
  | source :: files =>
    let rest := sourcePart decoder contentOf source files
    ⟨heading ++ inputPart source ++ rest.shown, rest.failure⟩

end

/-- The deepest nesting of arrays and objects in a file. -/
def fileNesting : Nat := 127

/-- A run with those arguments, the numbers in the files taken for the nearest. -/
def run (contentOf : String → Except ReadFault String) : List String → Outcome :=
  runWith ⟨.nearest, some fileNesting⟩ contentOf

end RecordRules.Trace
