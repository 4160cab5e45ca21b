/-
# Literals as part of a longer text

What a literal is written as is one lexeme, whatever stands behind it, with one exception: the
digits of a number must not be followed by a digit or a point, which would go on with them. A
text in quotes needs no such care, since its last quote ends it and no quote inside can.

Quoting is two replacements, of each backslash by two and then of each quote by a backslash and
a quote. The second one puts in backslashes of its own, so the other order would double them
too; in this order the two are one pass over the characters (`flatMap_escaped`), which is what
the reader of a quoted text undoes character by character.

No number is written with an exponent, and none begins with a point or ends in a sign. So its
digits are a run from first to last, and reading them gives the number again, a zero without its
sign (`Binary64.numberOf_digits`).

Key definitions: `TakenFirst`, `Text.replaced`. Key theorems: `TakenFirst.of_first`,
`takenFirst_quoted`, `takenFirst_digits_iff`, `literals_taken_whole`.
-/
import RecordRules.Proofs.Munching

namespace RecordRules

open String (utf8Len)

/-! ### The first token of a text -/

/-- With the rest behind it, and wherever it stands, the text is taken for the lexeme: it takes those characters
and none of the rest, its token stands at their bytes, and the tokens behind are those of the rest. -/
structure TakenFirst (text : List Char) (l : Lexeme) (rest : List Char) : Prop where
  lexeme : ∃ c more, text = c :: more ∧ Text.isBlank c = false ∧
    ∀ offset, Lexeme.first offset c (more ++ rest) = .ok (l, more.length)
  tokens : ∀ p, Token.scanFrom p (text ++ rest) = (Token.scanFrom (p.pastLexeme text) rest).map
    (⟨l, p.offset, p.offset + utf8Len text, p.line, p.column⟩ :: ·)

/-- The lexeme that is taken decides on the token. -/
theorem TakenFirst.of_first {c : Char} {more rest : List Char} {l : Lexeme} (solid : Text.isBlank c = false)
    (first : ∀ offset, Lexeme.first offset c (more ++ rest) = .ok (l, more.length)) :
    TakenFirst (c :: more) l rest where
  lexeme := ⟨c, more, rfl, solid, first⟩
  tokens p := by
    rw [List.cons_append, Token.scanFrom, if_neg (by simp [solid]), first]
    simp only [List.take_left, List.drop_left, Position.offset_pastLexeme]
    cases Token.scanFrom (p.pastLexeme (c :: more)) rest <;> rfl

/-! ### Texts in quotes -/

/-- The text with every occurrence of the character replaced. -/
def Text.replaced (c : Char) (replacement : List Char) (cs : List Char) : List Char :=
  cs.flatMap fun d => if d = c then replacement else [d]

/-- **One pass.** Escaping is replacing the backslashes and then the quotes. -/
theorem flatMap_escaped (cs : List Char) :
    cs.flatMap escaped = Text.replaced '\'' ['\\', '\''] (Text.replaced '\\' ['\\', '\\'] cs) := by
  unfold Text.replaced
  rw [List.flatMap_assoc]
  refine List.flatMap_congr fun c _ => ?_
  unfold escaped
  by_cases slash : c = '\\'
  · subst slash
    rfl
  · by_cases quote : c = '\'' <;> simp [slash, quote]

theorem takenFirst_quoted (s : String) (rest : List Char) :
    TakenFirst (singleQuoted s.toList) (.string s) rest := by
  refine .of_first rfl fun offset => ?_
  calc Lexeme.first offset '\'' (s.toList.flatMap escaped ++ ['\''] ++ rest)
      = Lexeme.first offset '\'' (s.toList.flatMap escaped ++ '\'' :: rest) := by
        rw [List.append_assoc, List.singleton_append]
    _ = .ok (.string (String.ofList s.toList), (s.toList.flatMap escaped).length + 1) := first_string ..
    _ = .ok (.string s, (s.toList.flatMap escaped ++ ['\'']).length) := by
        rw [String.ofList_toList, List.length_append, List.length_singleton]

/-! ### Digits of numbers -/

section
variable {c : Char} {more rest : List Char}

/-- A run is taken as it is if nothing behind it goes on with it. -/
theorem takenFirst_run_iff (run : IsRun c more) :
    TakenFirst (c :: more) (.number (String.ofList (c :: more))) rest ↔ ∀ d ∈ rest.head?, isNumberChar d = false := by
  constructor
  · rintro ⟨⟨_, _, same, _, first⟩, _⟩ d next
    cases same
    by_contra goesOn
    obtain ⟨behind, rfl⟩ := Lexeme.eq_cons_of_head? next
    -- the character would be taken too, as the run is taken to its end
    have start : c.isDigit = true ∨ c = '-' ∧ (more ++ d :: behind).head?.any Char.isDigit = true := by
      refine run.start.imp_right (And.imp_right fun digit => ?_)
      cases more with
      | nil => cases digit
      | cons => exact digit
    have whole := (first_run 0 start).symm.trans (first 0)
    have goesOn : isNumberChar d = true := by simpa using goesOn
    rw [List.takeWhile_append_of_pos run.all, List.takeWhile_cons_of_pos goesOn] at whole
    simp only [Except.ok.injEq, Prod.mk.injEq, List.length_append, List.length_cons] at whole
    omega
  · intro stop
    refine .of_first (not_blank_of_spells (.number run)) fun offset => ?_
    exact first_number offset run stop

end

theorem takenFirst_digits_iff (x : Binary64) (rest : List Char) :
    TakenFirst x.digits (.number (String.ofList x.digits)) rest ↔ ∀ c ∈ rest.head?, isNumberChar c = false := by
  obtain ⟨first, more, digits, run⟩ := x.digits_eq_cons
  rw [digits]
  exact takenFirst_run_iff run

theorem isNumberChar_eq_false_iff {c : Char} : isNumberChar c = false ↔ c.isDigit = false ∧ c ≠ '.' := by
  simp [isNumberChar]

/-- **Digits give numbers back.** All but the sign of a zero. -/
theorem Binary64.numberOf_digits (x : Binary64) :
    Parse.State.numberOf (String.ofList x.digits) = if x.isZero then ofRank false 0 else x := by
  cases x with
  | nan => exact reread_nan
  | ranked negative rank =>
    have same := reread_ranked negative rank
    rw [reread] at same
    rw [same]
    by_cases zero : rank.val = 0
    · have first : rank = ⟨0, by decide⟩ := Fin.ext zero
      simp [isZero, ofRank, first]
    · simp [isZero, zero]

/-- **Literals are taken whole.** What a text is written as is taken for that text, whatever stands behind it. What
a number is written as is taken for its digits exactly if neither a digit nor a point stands behind it, and the
digits are read as the number: NaN for NaN, an infinity for an infinity, and zero for either zero. -/
theorem literals_taken_whole (rest : List Char) :
    (∀ s : String,
      (Literal.string s).lexeme.canonical =
        '\'' :: Text.replaced '\'' ['\\', '\''] (Text.replaced '\\' ['\\', '\\'] s.toList) ++ ['\''] ∧
      TakenFirst (Literal.string s).lexeme.canonical (.string s) rest) ∧
    ∀ x : Binary64,
      (TakenFirst (Literal.number x).lexeme.canonical
          (.number (String.ofList (Literal.number x).lexeme.canonical)) rest ↔
        ∀ c ∈ rest.head?, c.isDigit = false ∧ c ≠ '.') ∧
      Parse.State.numberOf (String.ofList (Literal.number x).lexeme.canonical) =
        if x.isZero then .ofRank false 0 else x := by
  refine ⟨fun s => ⟨?_, takenFirst_quoted s rest⟩, fun x => ?_⟩
  · show singleQuoted s.toList = _
    rw [singleQuoted, flatMap_escaped]
  · have written : (Literal.number x).lexeme.canonical = x.digits := String.toList_ofList
    rw [written, takenFirst_digits_iff]
    refine ⟨?_, x.numberOf_digits⟩
    simp only [isNumberChar_eq_false_iff]

end RecordRules
