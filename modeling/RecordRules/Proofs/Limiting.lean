/-
# Reading under a limit

A limit on the brackets that are open at once refuses texts and does nothing else: a text
is read under it exactly if it is read without it and keeps to it, and then as the same
formula, whose names are exactly those of its expression. A text that is refused anyway is
refused under the limit too. It is refused for the same reason, if the tokens in front of
the place of the fault keep to the limit; and else for the limit, at the token behind the
first bracket that is one too many.

Which token a fault lies at can be told from its line and column, as no two tokens of a
text have the same (`SyntaxError.Behind.unique`).

Key theorems: `names_exact`, `Formula.parseWithin_eq_ok_iff`, `limit_exact`.
-/
import RecordRules.Proofs.Nesting
import RecordRules.Proofs.Places

namespace RecordRules

open Parse

/-! ### Names -/

namespace Formula

variable {limit : Option Nat} {tokens : List Token} {formula : Formula}

/-- What is read under a limit is read without it. -/
theorem ofTokens_none_of_ok (h : ofTokens limit tokens = .ok formula) : ofTokens none tokens = .ok formula := by
  cases limit with
  | none => exact h
  | some most => exact (ofTokens_some_eq_ok_iff.mp h).1

theorem names_of_ok (h : ofTokens limit tokens = .ok formula) : formula.names = formula.expr.gather .none :=
  (ofTokens_eq_ok_iff.mp (ofTokens_none_of_ok h)).2

end Formula

/-- **The names are exact.** Whatever the limit, the fields of a formula that was read are those that its
expression mentions, and its functions those that it calls. -/
theorem names_exact {limit : Option Nat} {tokens : List Token} {formula : Formula}
    (read : Formula.ofTokens limit tokens = .ok formula) :
    (∀ path, path ∈ formula.names.fields ↔ formula.expr.Mentions path) ∧
      ∀ function, function ∈ formula.names.functions ↔ formula.expr.Calls function := by
  rw [Formula.names_of_ok read]
  exact ⟨fun path => formula.expr.mem_fields_gathered, fun function => formula.expr.mem_functions_gathered⟩

/-- A call in a call, a field named by a string and one by itself, and tokens behind the first `finish`. -/
theorem names_exact_nested :
    let tokens : List Token := [.name "get", .openParen, .string "b", .comma, .name "changed", .openParen,
      .name "a", .closeParen, .closeParen, .finish, .name "c"].map fun l => ⟨l, .origin⟩
    ∃ formula, Formula.ofTokens (some 2) tokens = .ok formula ∧
      formula.names.fields.toList = ["a", "b"] ∧ formula.expr.Mentions "a" ∧ formula.expr.Mentions "b" ∧
      ¬ formula.expr.Mentions "c" ∧
      formula.names.functions.toList = ["changed", "get"] ∧ formula.expr.Calls "changed" := by
  intro tokens
  have read : Formula.ofTokens (some 2) tokens =
      .ok ⟨.call "get" [.literal (.string "b"), .call "changed" [.field "a"]],
        .ofList ["a", "b"], .ofList ["changed", "get"]⟩ := rfl
  obtain ⟨fields, functions⟩ := names_exact read
  exact ⟨_, read, rfl, (fields "a").mp (by decide), (fields "b").mp (by decide),
    fun mentioned => absurd ((fields "c").mpr mentioned) (by decide), rfl, (functions "changed").mp (by decide)⟩

/-! ### Formulas -/

namespace Formula

variable {source : String} {formula : Formula} {most : Nat}

/-- **A limit only refuses.** A text is read under a limit exactly if it is read without it and keeps to it,
and then as the same formula. -/
theorem parseWithin_eq_ok_iff : parseWithin (some most) source = .ok formula ↔
    parse source = .ok formula ∧ TextWithin most source := by
  rw [parse, parseWithin, parseWithin, TextWithin]
  cases Token.scan source with
  | error => simp
  | ok tokens =>
    show ofTokens (some most) tokens = .ok formula ↔ ofTokens none tokens = .ok formula ∧ _
    simp only [ofTokens_some_eq_ok_iff, Except.ok.injEq, forall_eq']

theorem parseWithin_of_error {limit : Option Nat} {e : SyntaxError} (h : Token.scan source = .error e) :
    parseWithin limit source = .error e := by
  rw [parseWithin, h]

theorem parseWithin_of_scan {limit : Option Nat} {tokens : List Token} (h : Token.scan source = .ok tokens) :
    parseWithin limit source = conclude limit (endSpan tokens) .start (body tokens) := by
  rw [parseWithin, h]
  rfl

end Formula

theorem TextWithin.mono {source : String} {most more : Nat} (h : TextWithin most source) (le : most ≤ more) :
    TextWithin more source :=
  fun tokens scanned front hfront => (h tokens scanned front hfront).trans le

/-! ### The token that a fault lies at -/

/-- Tokens in reading order are told apart by their lines and columns. -/
theorem SyntaxError.Behind.unique {e : SyntaxError} {tokens front other : List Token}
    (ordered : tokens.Pairwise fun token later => token.span.place.Before later.span.place)
    (h : e.Behind front tokens) (h' : e.Behind other tokens) : front = other := by
  have distinct {front between rest : List Token} {token later : Token}
      (ordered : (front ++ token :: (between ++ later :: rest)).Pairwise
        fun token later => token.span.place.Before later.span.place)
      (line : e.line = token.span.line) (column : e.column = token.span.column)
      (line' : e.line = later.span.line) (column' : e.column = later.span.column) : False := by
    have behind := (List.pairwise_cons.mp (List.pairwise_append.mp ordered).2.1).1
    have before : token.span.line < later.span.line ∨
        token.span.line = later.span.line ∧ token.span.column < later.span.column := behind later (by simp)
    omega
  obtain ⟨token, rest, rfl, line, column⟩ := h
  obtain ⟨token', rest', split, line', column'⟩ := h'
  rcases List.append_eq_append_iff.mp split with ⟨between, rfl, heq⟩ | ⟨between, rfl, heq⟩
  · cases between with
    | nil => exact (List.append_nil front).symm
    | cons first between =>
      cases heq
      exact (distinct ordered line column line' column').elim
  · cases between with
    | nil => exact List.append_nil other
    | cons first between =>
      cases heq
      rw [List.append_assoc] at ordered
      exact (distinct ordered line' column' line column).elim

theorem Crosses.ne_finish {p q : Position} {cs : List Char} {tokens : List Token} (h : Crosses p cs tokens q) :
    ∀ token ∈ tokens, token.lexeme ≠ .finish := by
  induction h with
  | stay => nofun
  | blank _ _ ih => exact ih
  | lexeme taken _ ih => exact List.forall_mem_cons.mpr ⟨taken.spells.ne_finish, ih⟩

/-- The tokens of a text are those that are read, and `finish`. -/
theorem body_of_scan {source : String} {tokens : List Token} (h : Token.scan source = .ok tokens) :
    body tokens ++ [⟨.finish, endSpan tokens⟩] = tokens := by
  obtain ⟨inner, q, rfl, crossed⟩ := scan_eq_ok_iff.mp h
  have inside : ∀ token ∈ inner, decide (token.lexeme ≠ .finish) = true :=
    fun token mem => decide_eq_true (crossed.ne_finish token mem)
  have before : body (inner ++ [.finishAt q]) = inner := by
    rw [body, List.takeWhile_append_of_pos inside]
    exact List.append_nil inner
  have found : (inner ++ [Token.finishAt q]).find? (fun token => token.lexeme = .finish) =
      some (.finishAt q) := by
    have none : inner.find? (fun token => token.lexeme = .finish) = none :=
      List.find?_eq_none.mpr fun token mem => by simpa using crossed.ne_finish token mem
    rw [List.find?_append, none]
    rfl
  rw [before, endSpan, found]
  rfl

/-! ### Texts -/

/-- A text that is scanned and not read is refused at the token behind those that are taken. -/
theorem behind_taken_of_scan {source : String} {tokens : List Token} {e : SyntaxError}
    (scanned : Token.scan source = .ok tokens) (failed : Formula.parse source = .error e) :
    e.Behind (State.start.taken (body tokens)) tokens := by
  have place := behind_taken ((Formula.parseWithin_of_scan scanned).symm.trans failed)
  rwa [body_of_scan scanned] at place

/-- **A limit is exact.** A text is read under a limit exactly if it is read without it and never has more
brackets open at once, and then as the same formula. If it is not read without the limit, it is not read under
it. The fault is the same one if the text cannot be scanned, or if the tokens in front of the one at which the
fault lies never have more brackets open; otherwise it is the limit's, at the token behind the first bracket
that is one too many. So what is read under a limit is read under any that allows more. -/
theorem limit_exact (source : String) (most : Nat) :
    (∀ formula, Formula.parseWithin (some most) source = .ok formula ↔
      Formula.parse source = .ok formula ∧ TextWithin most source) ∧
    (∀ e, Token.scan source = .error e →
      Formula.parse source = .error e ∧ Formula.parseWithin (some most) source = .error e) ∧
    (∀ tokens e, Token.scan source = .ok tokens → Formula.parse source = .error e →
      (∃ front, e.Behind front tokens) ∧ ∀ front, e.Behind front tokens →
        (NestsWithin most (front.map Token.lexeme) → Formula.parseWithin (some most) source = .error e) ∧
        (¬ NestsWithin most (front.map Token.lexeme) → ∃ stopped deep,
          Formula.parseWithin (some most) source = .error stopped ∧ stopped.fault = .tooDeep most ∧
            stopped.Behind deep tokens ∧ Oversteps most 0 (deep.map Token.lexeme))) ∧
    ∀ more formula, most ≤ more → Formula.parseWithin (some most) source = .ok formula →
      Formula.parseWithin (some more) source = .ok formula := by
  refine ⟨fun formula => Formula.parseWithin_eq_ok_iff, fun e stopped => ?_, fun tokens e scanned failed => ?_,
    fun more formula le read => ?_⟩
  · exact ⟨Formula.parseWithin_of_error stopped, Formula.parseWithin_of_error stopped⟩
  · have place := behind_taken_of_scan scanned failed
    refine ⟨⟨_, place⟩, fun front reported => ?_⟩
    -- Two tokens do not have one place, so these are the tokens that are taken without the limit.
    obtain rfl := place.unique (ordered_of_scan scanned) reported
    rw [Formula.parseWithin_of_scan scanned]
    constructor
    · intro within
      rw [conclude_of_within within, ← Formula.parseWithin_of_scan scanned]
      exact failed
    · intro deeper
      obtain ⟨e', deep, stopped, fault, behind, passed⟩ :=
        conclude_of_not_within (s := .start) (endSpan tokens) deeper
      rw [body_of_scan scanned] at behind
      exact ⟨e', deep, stopped, fault, behind, passed⟩
  · obtain ⟨parsed, within⟩ := Formula.parseWithin_eq_ok_iff.mp read
    exact Formula.parseWithin_eq_ok_iff.mpr ⟨parsed, within.mono le⟩

/-- The array is not closed, which is found behind two brackets: under a limit of two the fault is the same,
and under a limit of one it is the limit's. -/
theorem limit_exact_unclosed :
    Formula.parseWithin (some 2) "[(a) b" = .error ⟨.unclosed .array (.name "b"), 1, 6⟩ ∧
      ∃ stopped, Formula.parseWithin (some 1) "[(a) b" = .error stopped ∧ stopped.fault = .tooDeep 1 := by
  have scanned : Token.scan "[(a) b" = .ok [⟨.openBracket, 0, 1, 1, 1⟩, ⟨.openParen, 1, 2, 1, 2⟩,
      ⟨.name "a", 2, 3, 1, 3⟩, ⟨.closeParen, 3, 4, 1, 4⟩, ⟨.name "b", 5, 6, 1, 6⟩,
      ⟨.finish, 6, 6, 1, 7⟩] := by cbv
  have failed : Formula.parse "[(a) b" = .error ⟨.unclosed .array (.name "b"), 1, 6⟩ := by cbv
  have reported : SyntaxError.Behind ⟨.unclosed .array (.name "b"), 1, 6⟩
      [⟨.openBracket, 0, 1, 1, 1⟩, ⟨.openParen, 1, 2, 1, 2⟩, ⟨.name "a", 2, 3, 1, 3⟩, ⟨.closeParen, 3, 4, 1, 4⟩]
      _ := ⟨⟨.name "b", 5, 6, 1, 6⟩, [⟨.finish, 6, 6, 1, 7⟩], rfl, rfl, rfl⟩
  have same := (((limit_exact "[(a) b" 2).2.2.1 _ _ scanned failed).2 _ reported).1 (by decide)
  obtain ⟨stopped, _, limited, fault, _⟩ :=
    (((limit_exact "[(a) b" 1).2.2.1 _ _ scanned failed).2 _ reported).2 (by decide)
  exact ⟨same, stopped, limited, fault⟩

end RecordRules
