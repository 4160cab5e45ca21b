/-
# Reading formulas

    expression := conjunction (or conjunction)*
    conjunction := relation (and relation)*
    relation := operand (comparison operand)*
    operand := ( expression ) | [ list? ] | literal | name | name ( list? )
    list := expression (, expression)*

The operators of each rank group to the left. Reading is a machine that takes
one lexeme at a time. Its state holds, for each bracket that is open, what stands
to the left of the next operand: at most one operand of each rank that waits for
its right side (`Pending`). When an operand is complete and an operator of some
rank follows, everything waiting that binds at least as tightly is joined with it
first. Names are gathered as they are read.

A lexeme that cannot go on is refused at once, so a fault lies at the first
lexeme with which no expression goes on. If the number of open brackets is
limited, the lexeme behind one bracket too many is refused, whatever it is.

Key definitions: `Parse.State`, `Parse.State.step`, `Formula.ofTokens`,
`Formula.parse`.
-/
import RecordRules.Formula
import RecordRules.Token
import RecordRules.Binary64.Numeral

namespace RecordRules
namespace Parse

/-- The operands to the left of the next one, at one level of brackets. -/
structure Pending where
  /-- The left side of an `or`. -/
  disjunct : Option Expr
  /-- The left side of an `and`. -/
  conjunct : Option Expr
  /-- The left side of a comparison. -/
  related : Option (Expr × Comparison)

namespace Pending

/-- Nothing to the left. -/
def none : Pending := ⟨.none, .none, .none⟩

def isNone (p : Pending) : Bool := p.disjunct.isNone && p.conjunct.isNone && p.related.isNone

/-- The relation that ends with the operand. -/
def relation (p : Pending) (operand : Expr) : Expr :=
  match p.related with
  | .none => operand
  | some (left, op) => .compare op left operand

/-- The conjunction that ends with the operand. -/
def conjunction (p : Pending) (operand : Expr) : Expr :=
  match p.conjunct with
  | .none => p.relation operand
  | some left => .connect .and left (p.relation operand)

/-- The expression that ends with the operand. -/
def expression (p : Pending) (operand : Expr) : Expr :=
  match p.disjunct with
  | .none => p.conjunction operand
  | some left => .connect .or left (p.conjunction operand)

/-- A comparison follows the operand. -/
def compare (p : Pending) (operand : Expr) (op : Comparison) : Pending :=
  { p with related := some (p.relation operand, op) }

/-- A connective follows the operand. -/
def connect (p : Pending) (operand : Expr) : Connective → Pending
  | .and => { p with conjunct := some (p.conjunction operand), related := .none }
  | .or => ⟨some (p.expression operand), .none, .none⟩

end Pending

/-- A bracket that is open, with what is pending outside it and the items it holds so far, the
last one first. -/
inductive Frame where
  | group (outer : Pending)
  | array (outer : Pending) (read : List Expr)
  | arguments (outer : Pending) (function : String) (read : List Expr)

/-- The kind of bracket. -/
def Frame.bracket : Frame → Bracket
  | group _ => .group
  | array .. => .array
  | arguments .. => .arguments

/-- What has been read last. -/
inductive Phase where
  /-- An operand must come. -/
  | expecting
  /-- A name, which the next lexeme makes a field or a call. -/
  | named (name : String)
  /-- A complete operand. -/
  | operand (e : Expr)

/-- The state between two lexemes: open brackets, innermost first, what is pending inside the
innermost one, what has been read last, and the names so far. -/
structure State where
  frames : List Frame
  pending : Pending
  phase : Phase
  names : Names

namespace State

/-- Before the first lexeme. -/
def start : State := ⟨[], .none, .expecting, .none⟩

/-- A bracket opens. -/
def opened (s : State) (frame : Frame) : State :=
  { s with frames := frame :: s.frames, pending := .none, phase := .expecting }

/-- A comma: the innermost bracket holds one more item and waits for the next. -/
def following (s : State) (frame : Frame) (rest : List Frame) : State :=
  { s with frames := frame :: rest, pending := .none, phase := .expecting }

/-- An operand is complete. -/
def withOperand (s : State) (e : Expr) : State := { s with phase := .operand e }

/-- A bracket closes, and what it held is an operand of what is pending outside. -/
def closed (s : State) (rest : List Frame) (outer : Pending) (e : Expr) : State :=
  { s with frames := rest, pending := outer, phase := .operand e }

/-- The arguments of a call close. -/
def closedCall (s : State) (rest : List Frame) (outer : Pending) (function : String)
    (args : List Expr) : State :=
  { s.closed rest outer (.call function args) with names := s.names.withCall function args }

/-- The state once a name without an argument list counts as a field. -/
def settled (s : State) : State :=
  match s.phase with
  | .named path => { s with phase := .operand (.field path), names := s.names.withField path }
  | _ => s

/-- Why the lexeme cannot go on. -/
def refusal (s : State) (found : Lexeme) : SyntaxFault :=
  match s.phase, s.frames with
  | .expecting, _ => if found = .finish then .unexpectedEnd else .unexpectedLexeme found
  | _, [] => .trailing found
  | _, frame :: _ => .unclosed frame.bracket found

/-- The number a run of digits stands for; NaN if it is no number. -/
def numberOf (digits : String) : Binary64 := (Binary64.read? digits.toList).getD .nan

/-- A lexeme where an operand must come. -/
def stepExpecting (s : State) : Lexeme → Option State
  | .openParen => some (s.opened (.group s.pending))
  | .openBracket => some (s.opened (.array s.pending []))
  | .string text => some (s.withOperand (.literal (.string text)))
  | .number digits => some (s.withOperand (.literal (.number (numberOf digits))))
  | .boolean b => some (s.withOperand (.literal (.bool b)))
  | .null => some (s.withOperand (.literal .null))
  | .name path => some { s with phase := .named path }
  | .closeBracket =>
    match s.frames with
    | .array outer [] :: rest =>
      if s.pending.isNone then some (s.closed rest outer (.array [])) else none
    | _ => none
  | .closeParen =>
    match s.frames with
    | .arguments outer function [] :: rest =>
      if s.pending.isNone then some (s.closedCall rest outer function []) else none
    | _ => none
  | _ => none

/-- A lexeme behind a complete operand. -/
def stepOperand (s : State) (e : Expr) : Lexeme → Option State
  | .comparison op => some { s with pending := s.pending.compare e op, phase := .expecting }
  | .connective op => some { s with pending := s.pending.connect e op, phase := .expecting }
  | .comma =>
    match s.frames with
    | .array outer read :: rest =>
      some (s.following (.array outer (s.pending.expression e :: read)) rest)
    | .arguments outer function read :: rest =>
      some (s.following (.arguments outer function (s.pending.expression e :: read)) rest)
    | _ => none
  | .closeParen =>
    match s.frames with
    | .group outer :: rest => some (s.closed rest outer (s.pending.expression e))
    | .arguments outer function read :: rest =>
      some (s.closedCall rest outer function (s.pending.expression e :: read).reverse)
    | _ => none
  | .closeBracket =>
    match s.frames with
    | .array outer read :: rest =>
      some (s.closed rest outer (.array (s.pending.expression e :: read).reverse))
    | _ => none
  | _ => none

/-- A lexeme, the number of brackets aside. -/
def advance (s : State) (lexeme : Lexeme) : Option State :=
  match s.phase with
  | .expecting => s.stepExpecting lexeme
  | .named name =>
    if lexeme = .openParen then some (s.opened (.arguments s.pending name []))
    else s.settled.stepOperand (.field name) lexeme
  | .operand e => s.stepOperand e lexeme

/-- The fault of a state with more open brackets than the limit allows. -/
def depthFault? (limit : Option Nat) (s : State) : Option SyntaxFault :=
  match limit with
  | some most => if most < s.frames.length then some (.tooDeep most) else none
  | none => none

/-- One lexeme. -/
def step (limit : Option Nat) (s : State) (lexeme : Lexeme) : Except SyntaxFault State :=
  match s.depthFault? limit, s.advance lexeme with
  | some fault, _ => .error fault
  | none, some next => .ok next
  | none, none => .error (s.refusal lexeme)

/-- The formula, if the expression can end here. -/
def formula? (s : State) : Option Formula :=
  let s := s.settled
  match s.phase, s.frames with
  | .operand e, [] => some ⟨s.pending.expression e, s.names⟩
  | _, _ => none

/-- The end of the expression. -/
def finish (limit : Option Nat) (s : State) : Except SyntaxFault Formula :=
  match s.depthFault? limit, s.formula? with
  | some fault, _ => .error fault
  | none, some formula => .ok formula
  | none, none => .error (s.refusal .finish)

end State

/-- A fault at the line and column of a span. -/
def located {α : Type} (span : Span) : Except SyntaxFault α → Except SyntaxError α
  | .ok result => .ok result
  | .error fault => .error ⟨fault, span.line, span.column⟩

/-- The tokens before the end of the expression. -/
def body (tokens : List Token) : List Token :=
  tokens.takeWhile fun token => token.lexeme ≠ .finish

/-- Where the expression ends: at the first `finish`, or without one behind the last token. -/
def endSpan (tokens : List Token) : Span :=
  match tokens.find? fun token => token.lexeme = .finish with
  | some token => token.span
  | none =>
    match tokens.getLast? with
    | some token => { token.span with start := token.span.stop }
    | none => .origin

/-- The state after the tokens. -/
def run (limit : Option Nat) : State → List Token → Except SyntaxError State
  | s, [] => .ok s
  | s, token :: rest =>
    match located token.span (s.step limit token.lexeme) with
    | .ok next => run limit next rest
    | .error e => .error e

end Parse

namespace Formula

/-- Reads the formula that the tokens before the first `finish` spell, with at most that many
brackets open at once. -/
def ofTokens (limit : Option Nat) (tokens : List Token) : Except SyntaxError Formula :=
  match Parse.run limit .start (Parse.body tokens) with
  | .ok s => Parse.located (Parse.endSpan tokens) (s.finish limit)
  | .error e => .error e

/-- Reads a formula with at most that many brackets open at once. -/
def parseWithin (limit : Option Nat) (source : String) : Except SyntaxError Formula :=
  match Token.scan source with
  | .ok tokens => ofTokens limit tokens
  | .error e => .error e

/-- Reads a formula. -/
def parse (source : String) : Except SyntaxError Formula := parseWithin none source

end Formula
end RecordRules
