/-
# What the machine comes to

The machine that reads formulas knows nothing of places. Seen from a cursor into the tokens, a
state and the tokens from the cursor on determine what is read in the end, or which fault is
found (`outlook`). The end of the expression is a token like the others here: the first
`finish` among the tokens, and no token behind it is ever looked at (`EndsAt`,
`ofTokens_finish`).

A token that is taken does not change the outlook (`outlook_take`). One that is refused
decides it (`outlook_refused`), as does a bracket that is one too many, at whatever token is
next (`outlook_deep`). States whose brackets are the same and that treat the next token alike
have the same outlook (`outlook_congr`): a name that no parenthesis follows and the field of
that name, or the right side of an operator and the two sides joined, if nothing that binds
tighter follows.

Key definitions: `EndsAt`, `tokenAt`, `outlook`. Key theorems: `outlook_take`,
`outlook_refused`, `outlook_deep`, `outlook_join`.
-/
import RecordRules.Proofs.Viability

namespace RecordRules

theorem Operator.lexeme_ne_finish (op : Operator) : op.lexeme ≠ .finish := by
  cases op <;> nofun

/-- A fault at the line and column of the token. -/
def Token.error (token : Token) (fault : SyntaxFault) : SyntaxError := ⟨fault, token.span.line, token.span.column⟩

namespace Parse

theorem Enclosure.close_ne_finish (b : Enclosure) : b.close ≠ .finish := by
  cases b <;> nofun

/-! ### The token at the cursor -/

/-- The tokens in front of the first end of the expression, and its place. -/
structure EndsAt (tokens front : List Token) (span : Span) : Prop where
  plain : ∀ token ∈ front, token.lexeme ≠ .finish
  begins : front ++ [⟨.finish, span⟩] <+: tokens

/-- The token that the cursor is at, the end of the expression behind all others. -/
def tokenAt (front : List Token) (span : Span) (cursor : Nat) : Token := front[cursor]?.getD ⟨.finish, span⟩

/-- What the machine comes to from the state on, with the tokens that the cursor is at. -/
def outlook (limit : Option Nat) (front : List Token) (span : Span) (s : State) (cursor : Nat) :
    Except SyntaxError Formula :=
  conclude limit span s (front.drop cursor)

theorem endsAt_ended (tokens : List Token) : EndsAt (ended tokens) (body tokens) (endSpan tokens) := by
  refine ⟨fun token mem => ?_, body_ended tokens⟩
  exact of_decide_eq_true (List.all_eq_true.mp List.all_takeWhile token mem)

section
variable {limit : Option Nat} {tokens front : List Token} {span : Span} {cursor : Nat} {l : Lexeme} {s next : State}

theorem tokenAt_of_lt (lt : cursor < front.length) : tokenAt front span cursor = front[cursor] := by
  rw [tokenAt, List.getElem?_eq_getElem lt]
  rfl

theorem tokenAt_of_le (le : front.length ≤ cursor) : tokenAt front span cursor = ⟨.finish, span⟩ := by
  rw [tokenAt, List.getElem?_eq_none le]
  rfl

namespace EndsAt

/-- The cursor is at a token, or at the end behind all of them. -/
theorem at_cases (h : EndsAt tokens front span) (cursor : Nat) :
    (cursor < front.length ∧ front.drop cursor = tokenAt front span cursor :: front.drop (cursor + 1) ∧
      (tokenAt front span cursor).lexeme ≠ .finish) ∨
    (front.drop cursor = [] ∧ tokenAt front span cursor = ⟨.finish, span⟩) := by
  rcases Nat.lt_or_ge cursor front.length with lt | ge
  · rw [tokenAt_of_lt lt]
    exact .inl ⟨lt, List.drop_eq_getElem_cons lt, h.plain _ (List.getElem_mem lt)⟩
  · exact .inr ⟨List.drop_eq_nil_of_le ge, tokenAt_of_le ge⟩

theorem getElem? (h : EndsAt tokens front span) (le : cursor ≤ front.length) :
    tokens[cursor]? = some (tokenAt front span cursor) := by
  obtain ⟨rest, rfl⟩ := h.begins
  rw [List.append_assoc]
  rcases Nat.lt_or_eq_of_le le with lt | rfl
  · rw [List.getElem?_append_left lt, tokenAt_of_lt lt, List.getElem?_eq_getElem lt]
  · rw [List.getElem?_append_right le, tokenAt_of_le le, Nat.sub_self]
    rfl

theorem lt_length (h : EndsAt tokens front span) (lexeme : (tokenAt front span cursor).lexeme = l)
    (other : l ≠ .finish) : cursor < front.length := by
  rcases h.at_cases cursor with ⟨lt, _⟩ | ⟨_, finish⟩
  · exact lt
  · rw [finish] at lexeme
    exact absurd lexeme.symm other

theorem findIdx (h : EndsAt tokens front span) :
    tokens.findIdx (fun token => token.lexeme = .finish) = front.length := by
  obtain ⟨rest, rfl⟩ := h.begins
  have none : front.findIdx (fun token => token.lexeme = .finish) = front.length :=
    List.findIdx_eq_length.mpr fun token mem => by simpa using h.plain token mem
  rw [List.append_assoc, List.findIdx_append, none, if_neg (Nat.lt_irrefl _)]
  simp [List.findIdx_cons]

/-- One more token is passed. -/
theorem openBehind_take (h : EndsAt tokens front span) (lexeme : (tokenAt front span cursor).lexeme = l)
    (other : l ≠ .finish) : openBehind ((front.take (cursor + 1)).map Token.lexeme) =
      l.nesting (openBehind ((front.take cursor).map Token.lexeme)) := by
  have lt := h.lt_length lexeme other
  rw [tokenAt_of_lt lt] at lexeme
  rw [List.take_succ_eq_append_getElem lt, List.map_append, openBehind, List.foldl_append, ← lexeme]
  rfl

end EndsAt

/-- What stands behind the first end of the expression is not read. -/
theorem ofTokens_finish (limit : Option Nat) (front : List Token) {token : Token} (finish : token.lexeme = .finish)
    (rest rest' : List Token) :
    Formula.ofTokens limit (front ++ token :: rest) = Formula.ofTokens limit (front ++ token :: rest') := by
  have bodies (rest : List Token) : body (front ++ token :: rest) = body (front ++ [token]) := by
    simp [body, List.takeWhile_append, finish]
  have spans (rest : List Token) : endSpan (front ++ token :: rest) = endSpan (front ++ [token]) := by
    simp [endSpan, List.find?_append, finish]
  rw [Formula.ofTokens, Formula.ofTokens, bodies rest, bodies rest', spans rest, spans rest']

/-! ### Outlooks -/

theorem depthFault?_eq_none_iff : s.depthFault? limit = none ↔ ∀ most ∈ limit, s.frames.length ≤ most := by
  cases limit with
  | none => simp [State.depthFault?]
  | some most => simp [State.depthFault?]

/-- A token that the machine takes. -/
theorem outlook_take (h : EndsAt tokens front span) (within : s.depthFault? limit = none)
    (lexeme : (tokenAt front span cursor).lexeme = l) (other : l ≠ .finish) (taken : s.advance l = some next) :
    outlook limit front span s cursor = outlook limit front span next (cursor + 1) := by
  rcases h.at_cases cursor with ⟨_, drop, _⟩ | ⟨_, finish⟩
  · rw [outlook, drop]
    refine conclude_of_step ?_
    rw [State.step, within, lexeme, taken]
  · rw [finish] at lexeme
    exact absurd lexeme.symm other

/-- A fault at the token. -/
theorem outlook_fault (h : EndsAt tokens front span) {fault : SyntaxFault}
    (step : s.step limit (tokenAt front span cursor).lexeme = .error fault)
    (finish : (tokenAt front span cursor).lexeme = .finish → s.finish limit = .error fault) :
    outlook limit front span s cursor = .error ((tokenAt front span cursor).error fault) := by
  rcases h.at_cases cursor with ⟨_, drop, _⟩ | ⟨drop, last⟩
  · rw [outlook, drop]
    exact conclude_of_fault step
  · rw [outlook, drop, last]
    show located span (s.finish limit) = _
    rw [finish (congrArg Token.lexeme last)]
    rfl

/-- A token that the machine refuses. -/
theorem outlook_refused (h : EndsAt tokens front span) (within : s.depthFault? limit = none)
    (lexeme : (tokenAt front span cursor).lexeme = l) (refused : s.advance l = none)
    (unfinished : l = .finish → s.formula? = none) :
    outlook limit front span s cursor = .error ((tokenAt front span cursor).error (s.refusal l)) := by
  subst lexeme
  refine outlook_fault h ?_ fun finish => ?_
  · rw [State.step, within, refused]
  · rw [State.finish, within, unfinished finish, finish]

/-- A bracket too many is refused at the next token, whatever it is. -/
theorem outlook_deep (h : EndsAt tokens front span) {fault : SyntaxFault} (deep : s.depthFault? limit = some fault) :
    outlook limit front span s cursor = .error ((tokenAt front span cursor).error fault) := by
  refine outlook_fault h ?_ fun _ => ?_
  · rw [State.step, deep]
  · rw [State.finish, deep]

/-- The end of the expression. -/
theorem outlook_read (h : EndsAt tokens front span) {formula : Formula} (within : s.depthFault? limit = none)
    (finish : (tokenAt front span cursor).lexeme = .finish) (read : s.formula? = some formula) :
    outlook limit front span s cursor = .ok formula := by
  rcases h.at_cases cursor with ⟨_, _, other⟩ | ⟨drop, _⟩
  · exact absurd finish other
  · rw [outlook, drop]
    show located span (s.finish limit) = _
    rw [State.finish, within, read]
    rfl

/-- States that treat the token alike, and so the end of the expression. -/
theorem outlook_congr (h : EndsAt tokens front span) {other : State} (within : s.depthFault? limit = none)
    (within' : other.depthFault? limit = none)
    (advance : s.advance (tokenAt front span cursor).lexeme = other.advance (tokenAt front span cursor).lexeme)
    (refusal : ∀ l, s.refusal l = other.refusal l) (formula : s.formula? = other.formula?) :
    outlook limit front span s cursor = outlook limit front span other cursor := by
  rcases h.at_cases cursor with ⟨_, drop, _⟩ | ⟨drop, _⟩
  · have step : s.step limit (tokenAt front span cursor).lexeme =
        other.step limit (tokenAt front span cursor).lexeme := by
      rw [State.step, State.step, within, within', advance, refusal]
    rw [outlook, outlook, drop, conclude, conclude, run, run, step]
  · have finish : s.finish limit = other.finish limit := by
      rw [State.finish, State.finish, within, within', formula, refusal]
    rw [outlook, outlook, drop]
    show located span (s.finish limit) = located span (other.finish limit)
    rw [finish]

end

/-! ### Behind a name, and behind an operand -/

section
variable {limit : Option Nat} {tokens front : List Token} {span : Span} {cursor rank : Nat} {fs : List Frame}
  {p : Pending} {phase : Phase} {ns : Names} {e : Expr} {l : Lexeme} {b : Enclosure} {op : Operator}

theorem stepOperand_nil (free : ∀ op : Operator, op.lexeme ≠ l) :
    State.stepOperand ⟨[], p, phase, ns⟩ e l = none := by
  cases l with
  | comparison op => exact absurd rfl (free (.comparison op))
  | connective op => exact absurd rfl (free (.connective op))
  | _ => rfl

theorem stepOperand_group {outer : Pending} (free : ∀ op : Operator, op.lexeme ≠ l) (other : l ≠ .closeParen) :
    State.stepOperand ⟨.group outer :: fs, p, phase, ns⟩ e l = none := by
  cases l with
  | comparison op => exact absurd rfl (free (.comparison op))
  | connective op => exact absurd rfl (free (.connective op))
  | closeParen => exact absurd rfl other
  | _ => rfl

theorem stepOperand_list {outer : Pending} {read : List Expr} (free : ∀ op : Operator, op.lexeme ≠ l)
    (noComma : l ≠ .comma) (other : l ≠ b.close) :
    State.stepOperand ⟨b.frame outer read :: fs, p, phase, ns⟩ e l = none := by
  cases l with
  | comparison op => exact absurd rfl (free (.comparison op))
  | connective op => exact absurd rfl (free (.connective op))
  | comma => exact absurd rfl noComma
  | closeParen | closeBracket => cases b <;> first | rfl | exact absurd rfl other
  | _ => rfl

theorem grip_le (binds : ∀ op : Operator, op.lexeme = l → op.level.rank ≤ rank) (other : l ≠ .openParen) :
    l.grip ≤ rank := by
  cases l with
  | comparison op => exact binds (.comparison op) rfl
  | connective op =>
    have bound := binds (.connective op) rfl
    rwa [← Operator.grip_lexeme] at bound
  | openParen => exact absurd rfl other
  | _ => exact Nat.zero_le rank

/-- A name that no parenthesis follows counts as a field. -/
theorem outlook_field (h : EndsAt tokens front span) {path : String} (within : ∀ most ∈ limit, fs.length ≤ most)
    (other : (tokenAt front span cursor).lexeme ≠ .openParen) :
    outlook limit front span ⟨fs, p, .named path, ns⟩ cursor =
      outlook limit front span ⟨fs, p, .operand (.field path), ns.withField path⟩ cursor := by
  have within (s : State) (same : s.frames = fs) : s.depthFault? limit = none :=
    depthFault?_eq_none_iff.mpr (same ▸ within)
  refine outlook_congr h (within _ rfl) (within _ rfl) (if_neg other) (fun l => ?_) rfl
  cases fs <;> rfl

/-- If no operator that binds tighter follows, the right side of an operator counts as the two sides joined. -/
theorem outlook_join (h : EndsAt tokens front span) {left : Expr} (clear : p.ClearFrom op.level.rank)
    (within : ∀ most ∈ limit, fs.length ≤ most)
    (binds : ∀ next : Operator, next.lexeme = (tokenAt front span cursor).lexeme → next.level.rank ≤ op.level.rank) :
    outlook limit front span ⟨fs, p.wait left op, .operand e, ns⟩ cursor =
      outlook limit front span ⟨fs, p, .operand (op.join left e), ns⟩ cursor := by
  have within (s : State) (same : s.frames = fs) : s.depthFault? limit = none :=
    depthFault?_eq_none_iff.mpr (same ▸ within)
  refine outlook_congr h (within _ rfl) (within _ rfl) ?_ (fun l => ?_) ?_
  · by_cases paren : (tokenAt front span cursor).lexeme = .openParen
    · rw [paren]
      rfl
    · exact State.stepOperand_join clear (grip_le binds paren)
  · cases fs <;> rfl
  · cases fs <;> simp only [State.formula?, State.settled, Pending.expression_wait clear]

end
end Parse
end RecordRules
