/-
# Brackets that are open at once

The machine counts open brackets by its frames, and a limit on them is looked at before
each lexeme. The count can be read off the lexemes alone: each opening bracket adds one and
each closing bracket takes one away (`frames_advance`).

Without a limit, the machine takes tokens up to the first one that it refuses
(`Parse.State.taken`). A limit that the brackets of these tokens keep to has no say, whether
the machine takes all tokens or stops (`Parse.conclude_of_within`). Else it makes the machine
stop, at the token behind the first bracket that is one too many
(`Parse.conclude_of_not_within`). So a limit only refuses
(`Formula.ofTokens_some_eq_ok_iff`).

Key definitions: `NestsWithin`, `TextWithin`, `Oversteps`, `SyntaxError.Behind`,
`Parse.State.after?`, `Parse.State.taken`. Key theorems: `Parse.stopped_behind_taken`, `Parse.conclude_of_within`,
`Parse.conclude_of_not_within`, `Formula.ofTokens_some_eq_ok_iff`,
`Formula.parseWithin_eq_parse`.
-/
import Mathlib.Data.List.Infix
import RecordRules.Proofs.Reading

namespace RecordRules

/-- How many brackets are open behind the lexeme, if that many are open before it. -/
def Lexeme.nesting (opened : Nat) : Lexeme → Nat
  | .openParen | .openBracket => opened + 1
  | .closeParen | .closeBracket => opened - 1
  | _ => opened

/-- How many brackets are open behind the lexemes. -/
def openBehind (ls : List Lexeme) : Nat := ls.foldl Lexeme.nesting 0

/-- At no point are more than that many brackets open. -/
def NestsWithin (most : Nat) (ls : List Lexeme) : Prop := ∀ front, front <+: ls → openBehind front ≤ most

instance (most : Nat) (ls : List Lexeme) : Decidable (NestsWithin most ls) :=
  decidable_of_iff (∀ front ∈ ls.inits, openBehind front ≤ most) (by simp only [List.mem_inits, NestsWithin])

/-- The text falls into lexemes that never have more than that many brackets open, or it does not fall
into lexemes. -/
def TextWithin (most : Nat) (source : String) : Prop :=
  ∀ tokens, Token.scan source = .ok tokens → NestsWithin most (Parse.kinds tokens)

/-! ### Limits on lexemes -/

/-- With that many brackets open before the lexemes, at no point are more than the most open. With none open,
that is `NestsWithin`. -/
def WithinFrom (most opened : Nat) (ls : List Lexeme) : Prop :=
  ∀ front, front <+: ls → front.foldl Lexeme.nesting opened ≤ most

/-- The last of the lexemes opens the first bracket that is one too many. -/
def Oversteps (most opened : Nat) (ls : List Lexeme) : Prop :=
  most < ls.foldl Lexeme.nesting opened ∧
    ∀ front, front <+: ls → front ≠ ls → front.foldl Lexeme.nesting opened ≤ most

/-- The error lies at the token behind those in front. -/
def SyntaxError.Behind (e : SyntaxError) (front tokens : List Token) : Prop :=
  ∃ token rest, tokens = front ++ token :: rest ∧ e.line = token.span.line ∧ e.column = token.span.column

section
variable {most opened : Nat} {l : Lexeme} {ls ms : List Lexeme}

theorem WithinFrom.le (h : WithinFrom most opened ls) : opened ≤ most := h [] List.nil_prefix

theorem withinFrom_nil : WithinFrom most opened [] ↔ opened ≤ most := by
  refine ⟨WithinFrom.le, fun h front hfront => ?_⟩
  rw [List.prefix_nil.mp hfront]
  exact h

theorem withinFrom_cons :
    WithinFrom most opened (l :: ls) ↔ opened ≤ most ∧ WithinFrom most (l.nesting opened) ls := by
  constructor
  · intro h
    exact ⟨h.le, fun front hfront => h (l :: front) ((List.prefix_cons_inj l).mpr hfront)⟩
  · rintro ⟨here, behind⟩ front hfront
    rcases List.prefix_cons_iff.mp hfront with rfl | ⟨inner, rfl, hinner⟩
    · exact here
    · exact behind inner hinner

theorem withinFrom_append : WithinFrom most opened (ls ++ ms) ↔
    WithinFrom most opened ls ∧ WithinFrom most (ls.foldl Lexeme.nesting opened) ms := by
  induction ls generalizing opened with
  | nil =>
    rw [withinFrom_nil, List.nil_append]
    exact ⟨fun h => ⟨h.le, h⟩, And.right⟩
  | cons l ls ih =>
    rw [List.cons_append, withinFrom_cons, withinFrom_cons, ih, and_assoc]
    rfl

theorem oversteps_nil (h : most < opened) : Oversteps most opened [] :=
  ⟨h, fun _ hfront hne => absurd (List.prefix_nil.mp hfront) hne⟩

theorem Oversteps.cons (h : Oversteps most (l.nesting opened) ls) (kept : opened ≤ most) :
    Oversteps most opened (l :: ls) := by
  refine ⟨h.1, fun front hfront hne => ?_⟩
  rcases List.prefix_cons_iff.mp hfront with rfl | ⟨inner, rfl, hinner⟩
  · exact kept
  · exact h.2 inner hinner fun same => hne (congrArg (l :: ·) same)

theorem SyntaxError.Behind.cons {e : SyntaxError} {front tokens : List Token} (h : e.Behind front tokens)
    (token : Token) : e.Behind (token :: front) (token :: tokens) := by
  obtain ⟨found, rest, rfl, line, column⟩ := h
  exact ⟨found, rest, rfl, line, column⟩

end

/-! ### Brackets and frames -/

namespace Parse

variable {s next : State} {l : Lexeme} {e : Expr} {most : Nat}

theorem frames_stepExpecting (h : s.stepExpecting l = some next) :
    next.frames.length = l.nesting s.frames.length := by
  cases l with
  | closeParen | closeBracket =>
    simp only [State.stepExpecting] at h
    split at h
    · rename_i hf
      split at h <;> cases h
      simp [Lexeme.nesting, State.closedCall, State.closed, hf]
    · cases h
  | comma | comparison | connective | finish => cases h
  | _ => cases h; rfl

theorem frames_stepOperand (h : s.stepOperand e l = some next) :
    next.frames.length = l.nesting s.frames.length := by
  cases l with
  | comma | closeParen | closeBracket =>
    simp only [State.stepOperand] at h
    split at h <;> cases h
    all_goals
      rename_i hf
      simp [Lexeme.nesting, State.following, State.closedCall, State.closed, hf]
  | comparison | connective => cases h; rfl
  | _ => cases h

theorem frames_settled (s : State) : s.settled.frames = s.frames := by
  unfold State.settled
  split <;> rfl

/-- **A step opens and closes what its lexeme does.** -/
theorem frames_advance (h : s.advance l = some next) : next.frames.length = l.nesting s.frames.length := by
  unfold State.advance at h
  split at h
  · exact frames_stepExpecting h
  · split at h
    · rename_i hl
      cases h
      rw [hl]
      rfl
    · rw [frames_stepOperand h, frames_settled]
  · exact frames_stepOperand h

/-! ### Limits -/

theorem depthFault?_of_le (h : s.frames.length ≤ most) : s.depthFault? (some most) = none := by
  rw [State.depthFault?, if_neg (Nat.not_lt.mpr h)]

theorem step_of_le (h : s.frames.length ≤ most) (l : Lexeme) : s.step (some most) l = s.step none l := by
  rw [State.step, State.step, depthFault?_of_le h, State.depthFault?]

theorem finish_of_le (h : s.frames.length ≤ most) : s.finish (some most) = s.finish none := by
  rw [State.finish, State.finish, depthFault?_of_le h, State.depthFault?]

theorem depthFault?_of_lt (h : most < s.frames.length) : s.depthFault? (some most) = some (.tooDeep most) := by
  rw [State.depthFault?, if_pos h]

theorem step_of_lt (h : most < s.frames.length) (l : Lexeme) :
    s.step (some most) l = .error (.tooDeep most) := by
  rw [State.step, depthFault?_of_lt h]

theorem finish_of_lt (h : most < s.frames.length) : s.finish (some most) = .error (.tooDeep most) := by
  rw [State.finish, depthFault?_of_lt h]

theorem step_of_advance (h : s.advance l = some next) : s.step none l = .ok next := by
  rw [State.step, h, State.depthFault?]

theorem step_of_refused (h : s.advance l = none) : s.step none l = .error (s.refusal l) := by
  rw [State.step, h, State.depthFault?]

/-! ### What is taken -/

/-- The state behind the lexemes, if the machine takes them all. -/
def State.after? (s : State) : List Lexeme → Option State
  | [] => some s
  | l :: rest => (s.advance l).bind fun next => next.after? rest

/-- What is read from a state is read from the state behind the first part of it. -/
theorem read?_append (s : State) (ls ms : List Lexeme) :
    s.read? (ls ++ ms) = (s.after? ls).bind fun next => next.read? ms := by
  induction ls generalizing s with
  | nil => rfl
  | cons l ls ih =>
    rw [List.cons_append, State.read?, State.after?, Option.bind_assoc]
    exact Option.bind_congr fun next _ => ih next

theorem spells_after? {ls ms : List Lexeme} (h : Spells ls s) (taken : s.after? ms = some next) :
    Spells (ls ++ ms) next := by
  induction ms generalizing s ls with
  | nil =>
    cases taken
    rwa [List.append_nil]
  | cons l ms ih =>
    obtain ⟨between, step, taken⟩ := Option.bind_eq_some_iff.mp taken
    have := ih (spells_advance h step) taken
    rwa [List.append_assoc] at this

/-- The tokens that the machine takes before the first one that it refuses. -/
def State.taken (s : State) : List Token → List Token
  | [] => []
  | token :: rest =>
    match s.advance token.lexeme with
    | some next => token :: next.taken rest
    | none => []

theorem taken_begins (s : State) (tokens : List Token) : s.taken tokens <+: tokens := by
  induction tokens generalizing s with
  | nil => exact List.nil_prefix
  | cons token tokens ih =>
    rw [State.taken]
    split
    · rename_i next _
      exact (List.prefix_cons_inj token).mpr (ih next)
    · exact List.nil_prefix

/-- The formula of the tokens from a state on, if the expression ends behind them at that span. -/
def conclude (limit : Option Nat) (span : Span) (s : State) (tokens : List Token) :
    Except SyntaxError Formula :=
  match run limit s tokens with
  | .ok last => located span (last.finish limit)
  | .error e => .error e

section
variable {limit : Option Nat} {span : Span} {token : Token} {tokens : List Token} {formula : Formula}
  {e : SyntaxError}

theorem conclude_of_step (h : s.step limit token.lexeme = .ok next) :
    conclude limit span s (token :: tokens) = conclude limit span next tokens := by
  rw [conclude, run, h]
  rfl

theorem conclude_of_fault {fault : SyntaxFault} (h : s.step limit token.lexeme = .error fault) :
    conclude limit span s (token :: tokens) = .error ⟨fault, token.span.line, token.span.column⟩ := by
  rw [conclude, run, h]
  rfl

/-- What is read has been taken to its end. -/
theorem taken_of_conclude (h : conclude none span s tokens = .ok formula) : s.taken tokens = tokens := by
  induction tokens generalizing s with
  | nil => rfl
  | cons token tokens ih =>
    rw [State.taken]
    cases ha : s.advance token.lexeme with
    | none =>
      rw [conclude_of_fault (step_of_refused ha)] at h
      cases h
    | some next =>
      rw [conclude_of_step (step_of_advance ha)] at h
      dsimp only
      rw [ih h]

/-- **Where the machine stops.** What is not read is taken up to a token with which the state behind the tokens
taken does not go on, or it is taken to its end and the expression does not end there. -/
theorem stopped_behind_taken (h : conclude none span s tokens = .error e) :
    ∃ stopped, s.after? ((s.taken tokens).map Token.lexeme) = some stopped ∧
      ((∃ token rest, tokens = s.taken tokens ++ token :: rest ∧ stopped.advance token.lexeme = none ∧
          e = ⟨stopped.refusal token.lexeme, token.span.line, token.span.column⟩) ∨
        (s.taken tokens = tokens ∧ stopped.formula? = none ∧
          e = ⟨stopped.refusal .finish, span.line, span.column⟩)) := by
  induction tokens generalizing s with
  | nil =>
    have refused : located span (s.finish none) = .error e := h
    rw [State.finish, State.depthFault?] at refused
    cases hf : s.formula? with
    | none =>
      rw [hf] at refused
      cases refused
      exact ⟨s, rfl, .inr ⟨rfl, hf, rfl⟩⟩
    | some =>
      rw [hf] at refused
      cases refused
  | cons token tokens ih =>
    rw [State.taken]
    cases ha : s.advance token.lexeme with
    | none =>
      rw [conclude_of_fault (step_of_refused ha)] at h
      cases h
      exact ⟨s, rfl, .inl ⟨token, tokens, rfl, ha, rfl⟩⟩
    | some next =>
      rw [conclude_of_step (step_of_advance ha)] at h
      obtain ⟨stopped, behind, place⟩ := ih h
      have after : s.after? ((token :: next.taken tokens).map Token.lexeme) = some stopped := by
        rw [List.map_cons, State.after?, ha, Option.bind_some, behind]
      refine ⟨stopped, after, ?_⟩
      rcases place with ⟨found, rest, split, refused⟩ | ⟨all, ended⟩
      · exact .inl ⟨found, rest, congrArg (token :: ·) split, refused⟩
      · exact .inr ⟨congrArg (token :: ·) all, ended⟩

/-- What is not read is refused at the token behind those that are taken, the end of the expression counted
as a token. -/
theorem behind_taken (h : conclude none span s tokens = .error e) :
    e.Behind (s.taken tokens) (tokens ++ [⟨.finish, span⟩]) := by
  obtain ⟨stopped, _, ⟨token, rest, split, _, rfl⟩ | ⟨all, _, rfl⟩⟩ := stopped_behind_taken h
  · refine ⟨token, rest ++ [⟨.finish, span⟩], ?_, rfl, rfl⟩
    rw [← List.cons_append, ← List.append_assoc, ← split]
  · exact ⟨⟨.finish, span⟩, [], by rw [all], rfl, rfl⟩

/-- **A limit that is kept has no say.** If the tokens that are taken keep to the limit, it changes nothing,
whether the machine takes all or stops. -/
theorem conclude_of_within (h : WithinFrom most s.frames.length ((s.taken tokens).map Token.lexeme)) :
    conclude (some most) span s tokens = conclude none span s tokens := by
  have kept : s.frames.length ≤ most := h.le
  induction tokens generalizing s with
  | nil =>
    show located span (s.finish (some most)) = located span (s.finish none)
    rw [finish_of_le kept]
  | cons token tokens ih =>
    have same := step_of_le kept token.lexeme
    rw [State.taken] at h
    cases ha : s.advance token.lexeme with
    | none =>
      rw [step_of_refused ha] at same
      rw [conclude_of_fault same, conclude_of_fault (step_of_refused ha)]
    | some next =>
      rw [step_of_advance ha] at same
      rw [conclude_of_step same, conclude_of_step (step_of_advance ha)]
      simp only [ha, List.map_cons, withinFrom_cons] at h
      have more := h.2
      rw [← frames_advance ha] at more
      exact ih more more.le

/-- **A limit that is passed is met.** If the tokens that are taken pass the limit, the machine stops at the
token behind the bracket that is one too many. -/
theorem conclude_of_not_within (span : Span)
    (h : ¬ WithinFrom most s.frames.length ((s.taken tokens).map Token.lexeme)) :
    ∃ e deep, conclude (some most) span s tokens = .error e ∧ e.fault = .tooDeep most ∧
      e.Behind deep (tokens ++ [⟨.finish, span⟩]) ∧
      Oversteps most s.frames.length (deep.map Token.lexeme) := by
  induction tokens generalizing s with
  | nil =>
    have passed : most < s.frames.length := by
      rw [State.taken, List.map_nil, withinFrom_nil] at h
      exact Nat.lt_of_not_le h
    have stopped : conclude (some most) span s [] = .error ⟨.tooDeep most, span.line, span.column⟩ := by
      show located span (s.finish (some most)) = _
      rw [finish_of_lt passed]
      rfl
    exact ⟨_, [], stopped, rfl, ⟨_, [], rfl, rfl, rfl⟩, oversteps_nil passed⟩
  | cons token tokens ih =>
    rcases Nat.lt_or_ge most s.frames.length with passed | kept
    · have stopped : conclude (some most) span s (token :: tokens) =
          .error ⟨.tooDeep most, token.span.line, token.span.column⟩ :=
        conclude_of_fault (step_of_lt passed token.lexeme)
      exact ⟨_, [], stopped, rfl, ⟨token, _, rfl, rfl, rfl⟩, oversteps_nil passed⟩
    · rw [State.taken] at h
      cases ha : s.advance token.lexeme with
      | none =>
        rw [ha, List.map_nil, withinFrom_nil] at h
        exact absurd kept h
      | some next =>
        have same := step_of_le kept token.lexeme
        rw [step_of_advance ha] at same
        simp only [ha, List.map_cons, withinFrom_cons, not_and] at h
        have more := h kept
        rw [← frames_advance ha] at more
        obtain ⟨e, deep, stopped, fault, place, passed⟩ := ih more
        rw [frames_advance ha] at passed
        rw [conclude_of_step same]
        exact ⟨e, token :: deep, stopped, fault, place.cons token, passed.cons kept⟩

end

end Parse

open Parse

/-! ### Formulas -/

namespace Formula

variable {tokens : List Token} {formula : Formula} {most : Nat}

/-- Tokens that keep to the limit are read as without it. -/
theorem ofTokens_of_within (h : NestsWithin most (kinds tokens)) :
    ofTokens (some most) tokens = ofTokens none tokens := by
  have taken : (State.start.taken (body tokens)).map Token.lexeme <+: kinds tokens :=
    (taken_begins .start (body tokens)).map Token.lexeme
  exact conclude_of_within fun front hfront => h front (hfront.trans taken)

/-- **A limit only refuses.** Tokens are read under a limit exactly if they are read without it and keep to
it, and then as the same formula. -/
theorem ofTokens_some_eq_ok_iff :
    ofTokens (some most) tokens = .ok formula ↔
      ofTokens none tokens = .ok formula ∧ NestsWithin most (kinds tokens) := by
  constructor
  · intro h
    by_cases taken : WithinFrom most 0 ((State.start.taken (body tokens)).map Token.lexeme)
    · have read : ofTokens none tokens = .ok formula := (conclude_of_within taken).symm.trans h
      rw [taken_of_conclude read] at taken
      exact ⟨read, taken⟩
    · obtain ⟨e, _, stopped, _⟩ := conclude_of_not_within (endSpan tokens) taken
      cases stopped.symm.trans h
  · rintro ⟨read, within⟩
    rw [ofTokens_of_within within, read]

theorem parseWithin_eq_parse {source : String} (h : TextWithin most source) :
    parseWithin (some most) source = parse source := by
  rw [parse, parseWithin, parseWithin]
  cases hs : Token.scan source with
  | error => rfl
  | ok tokens => exact ofTokens_of_within (h tokens hs)

end Formula
end RecordRules
