/-
# Faults lie at the first impossible token

Tokens that are not read are refused at the first one that cannot stand where it does. The
tokens in front of it begin an expression, and no expression begins with those and the token
itself; if it is the end of the expression, the tokens in front are no expression. Without an
end of their own, tokens end behind the last one (`Parse.ended`).

What the machine refuses is impossible, as it reads all that the grammar derives. What it takes
is possible, as each of its states can be completed: by an operand where one must come, and by
what closes the open brackets (`Parse.State.completed`).

Key definitions: `Begins`, `Admits`, `Parse.ended`, `SyntaxFault.found?`. Key theorems:
`Parse.State.completed`, `refused_at_first_impossible`.
-/
import RecordRules.Proofs.Nesting

namespace RecordRules

/-- An expression begins with the lexemes. -/
def Begins (ls : List Lexeme) : Prop := ∃ rest e, Derives (ls ++ rest) (.expression e)

/-- The lexeme can stand behind those in front: the end behind an expression, and any other one where an
expression goes on with it. -/
def Admits (front : List Lexeme) (l : Lexeme) : Prop :=
  if l = .finish then ∃ e, Derives front (.expression e) else Begins (front ++ [l])

/-- The lexeme that a fault of reading finds out of place. -/
def SyntaxFault.found? : SyntaxFault → Option Lexeme
  | .unexpectedEnd => some .finish
  | .unexpectedLexeme found | .trailing found | .unclosed _ found => some found
  | _ => none

namespace Parse

/-- The tokens as they are read: with the end of the expression behind the last one, unless it is an end
itself. -/
def ended (tokens : List Token) : List Token :=
  match tokens.getLast? with
  | none => [⟨.finish, .origin⟩]
  | some last =>
    if last.lexeme = .finish then tokens
    else tokens ++ [⟨.finish, { last.span with start := last.span.stop }⟩]

/-- What is read and the place where it ends come first in the tokens. -/
theorem body_ended (tokens : List Token) : body tokens ++ [⟨.finish, endSpan tokens⟩] <+: ended tokens := by
  have begins : tokens <+: ended tokens := by
    unfold ended
    cases h : tokens.getLast? with
    | none =>
      rw [List.getLast?_eq_none_iff.mp h]
      exact List.nil_prefix
    | some last =>
      dsimp only
      split
      · exact List.prefix_rfl
      · exact List.prefix_append _ _
  cases found : tokens.find? fun token => token.lexeme = .finish with
  | some token =>
    obtain ⟨isFinish, front, rest, rfl, before⟩ := List.find?_eq_some_iff_append.mp found
    have inside : ∀ token ∈ front, decide (token.lexeme ≠ .finish) = true := by
      simpa using before
    have finish : token.lexeme = .finish := by simpa using isFinish
    have last : body (front ++ token :: rest) = front := by
      rw [body, List.takeWhile_append_of_pos inside, List.takeWhile_cons_of_neg (by simp [finish])]
      exact List.append_nil front
    have same : token = ⟨.finish, token.span⟩ := by rw [← finish]
    rw [last, endSpan, found, ← same]
    refine List.IsPrefix.trans ?_ begins
    exact ⟨rest, List.append_assoc front [token] rest⟩
  | none =>
    have inside : ∀ token ∈ tokens, decide (token.lexeme ≠ .finish) = true := by
      simpa using List.find?_eq_none.mp found
    have all : body tokens = tokens := by
      have := @List.takeWhile_append_of_pos _ _ tokens [] inside
      rwa [List.append_nil, List.takeWhile_nil, List.append_nil] at this
    rw [all, endSpan, found, ended]
    cases h : tokens.getLast? with
    | none =>
      rw [List.getLast?_eq_none_iff.mp h]
      exact List.prefix_rfl
    | some last =>
      have other : last.lexeme ≠ .finish := of_decide_eq_true (inside last (List.mem_of_getLast? h))
      dsimp only
      rw [if_neg other]

namespace State

/-! ### What is taken begins an expression -/

/-- Behind an operand the open brackets can be closed. -/
theorem completed_operand (fs : List Frame) (p : Pending) (e : Expr) (ns : Names) :
    ∃ rest formula, read? ⟨fs, p, .operand e, ns⟩ rest = some formula := by
  induction fs generalizing p e ns with
  | nil => exact ⟨[], _, rfl⟩
  | cons frame fs ih =>
    cases frame with
    | group outer =>
      obtain ⟨rest, formula, read⟩ := ih outer (p.expression e) ns
      exact ⟨.closeParen :: rest, formula, read⟩
    | array outer items =>
      obtain ⟨rest, formula, read⟩ := ih outer (.array (p.expression e :: items).reverse) ns
      exact ⟨.closeBracket :: rest, formula, read⟩
    | arguments outer function items =>
      let args := (p.expression e :: items).reverse
      obtain ⟨rest, formula, read⟩ := ih outer (.call function args) (ns.withCall function args)
      exact ⟨.closeParen :: rest, formula, read⟩

/-- **Each state can be completed.** -/
theorem completed (s : State) : ∃ rest formula, s.read? rest = some formula := by
  obtain ⟨fs, p, phase, ns⟩ := s
  cases phase with
  | expecting =>
    obtain ⟨rest, formula, read⟩ := completed_operand fs p (.literal .null) ns
    exact ⟨.null :: rest, formula, read⟩
  | named path =>
    -- a bracket behind the name would make a call of it, so an operator comes first
    obtain ⟨rest, formula, read⟩ :=
      completed_operand fs (p.compare (.field path) .equal) (.literal .null) (ns.withField path)
    exact ⟨.comparison .equal :: .null :: rest, formula, read⟩
  | operand e => exact completed_operand fs p e ns

variable {s : State} {ls : List Lexeme} {l : Lexeme}

theorem begins_of_after? (h : start.after? ls = some s) : Begins ls := by
  obtain ⟨rest, formula, read⟩ := s.completed
  have taken : start.read? (ls ++ rest) = some formula := by rw [read?_append, h, Option.bind_some, read]
  have derives := derives_of_read? spells_start taken
  exact ⟨rest, formula.expr, derives⟩

/-! ### What is refused is impossible -/

theorem not_begins_of_refused (h : start.after? ls = some s) (refused : s.advance l = none) :
    ¬ Begins (ls ++ [l]) := by
  rintro ⟨rest, e, derives⟩
  have read := read?_of_derives derives
  rw [List.append_assoc, read?_append, h, Option.bind_some, List.singleton_append, read?, refused] at read
  cases read

theorem not_derives_of_unfinished (h : start.after? ls = some s) (refused : s.formula? = none) :
    ¬ ∃ e, Derives ls (.expression e) := by
  rintro ⟨e, derives⟩
  have read := read?_of_derives derives
  rw [← List.append_nil ls, read?_append, h, Option.bind_some, read?, refused] at read
  cases read

theorem found?_refusal (s : State) (l : Lexeme) : (s.refusal l).found? = some l := by
  unfold refusal
  split
  · split
    · rename_i finish
      rw [finish]
      rfl
    · rfl
  · rfl
  · rfl

end State
end Parse

open Parse

/-- **Faults lie at the first impossible token.** Tokens that are not read are refused at a token that the fault
names, at its line and column: an expression begins with the tokens in front of it, and it cannot stand behind
them. -/
theorem refused_at_first_impossible {tokens : List Token} {e : SyntaxError}
    (refused : Formula.ofTokens none tokens = .error e) :
    ∃ front token rest, ended tokens = front ++ token :: rest ∧
      e.line = token.span.line ∧ e.column = token.span.column ∧ e.fault.found? = some token.lexeme ∧
      Begins (front.map Token.lexeme) ∧ ¬ Admits (front.map Token.lexeme) token.lexeme := by
  obtain ⟨behind, split⟩ := body_ended tokens
  obtain ⟨stopped, after, ⟨token, rest, taken, impossible, rfl⟩ | ⟨all, impossible, rfl⟩⟩ :=
    stopped_behind_taken refused
  · have inside : token.lexeme ≠ .finish := by
      have mem : token ∈ body tokens := by rw [taken]; simp
      exact of_decide_eq_true (List.all_eq_true.mp List.all_takeWhile token mem)
    refine ⟨State.start.taken (body tokens), token, rest ++ (⟨.finish, endSpan tokens⟩ :: behind), ?_, rfl, rfl,
      stopped.found?_refusal _, State.begins_of_after? after, ?_⟩
    · rw [← split, List.append_assoc, List.singleton_append, ← List.cons_append, ← List.append_assoc, ← taken]
    · rw [Admits, if_neg inside]
      exact State.not_begins_of_refused after impossible
  · rw [all] at after
    refine ⟨body tokens, ⟨.finish, endSpan tokens⟩, behind, ?_, rfl, rfl, stopped.found?_refusal _,
      State.begins_of_after? after, ?_⟩
    · rw [← split, List.append_assoc, List.singleton_append]
    · rw [Admits, if_pos rfl]
      exact State.not_derives_of_unfinished after impossible

/-- An array whose last comma has nothing behind it, in tokens without an end of their own: the end counts at
the place of the comma. -/
theorem refused_at_first_impossible_unended :
    let tokens : List Token := [⟨.openBracket, 0, 1, 1, 1⟩, ⟨.name "a", 1, 2, 1, 2⟩, ⟨.comma, 4, 5, 2, 1⟩]
    Formula.ofTokens none tokens = .error ⟨.unexpectedEnd, 2, 1⟩ ∧
      ∃ front token rest, tokens ++ [⟨.finish, 5, 5, 2, 1⟩] = front ++ token :: rest ∧
        token.span.line = 2 ∧ token.span.column = 1 ∧ token.lexeme = .finish ∧
        Begins (front.map Token.lexeme) ∧ ¬ Admits (front.map Token.lexeme) token.lexeme := by
  intro tokens
  have refused : Formula.ofTokens none tokens = .error ⟨.unexpectedEnd, 2, 1⟩ := rfl
  obtain ⟨front, token, rest, split, line, column, found, begins, impossible⟩ := refused_at_first_impossible refused
  exact ⟨refused, front, token, rest, split, line.symm, column.symm, (Option.some.inj found).symm, begins, impossible⟩

end RecordRules
