/-
# How lexemes are spelled

Which characters spell which lexeme, said without a scanner. Brackets, the comma and the
operators that are no words have one spelling. A string is quoted, and the characters
between its quotes are either plain, and then neither the quote nor a backslash, or stand
behind a backslash. A number is a digit, perhaps behind a minus sign, and then digits and
points. A word is a letter or `_` and then letters, digits, `_` and points; it spells a
name, unless its small letters are one of seven reserved words.

Several lexemes can begin at one place: `>` and `>=`, or each part of a name that begins
where the name does. The scanner always takes the longest, and it finds none only if none
begins there (`Lexeme.first_of_spells`, `Lexeme.longest_of_first`). As the longest text
spells one lexeme only (`Longest.lexeme_eq`), a place determines what is taken.

Key definitions: `Reserved`, `Quoted`, `Spells`, `Longest`. Key theorems:
`Lexeme.first_of_spells`, `Lexeme.longest_of_first`.
-/
import RecordRules.Proofs.Entries
import RecordRules.Proofs.Scanning

namespace RecordRules

/-- A word in small letters that is no name, and what it stands for. -/
inductive Reserved : String → Lexeme → Prop where
  | true : Reserved "true" (.boolean true)
  | false : Reserved "false" (.boolean false)
  | null : Reserved "null" .null
  | and : Reserved "and" (.connective .and)
  | or : Reserved "or" (.connective .or)
  | memberOf : Reserved "in" (.comparison .memberOf)
  | contains : Reserved "contains" (.comparison .contains)

/-- The word in small letters. -/
def lowered (word : List Char) : String := String.ofList (word.map Char.toLower)

/-- The characters are a letter or `_`, and then letters, digits, `_` and points. -/
structure IsWord (first : Char) (rest : List Char) : Prop where
  start : first.isAlpha = true ∨ first = '_'
  all : ∀ c ∈ rest, c.isAlphanum = true ∨ c = '_' ∨ c = '.'

/-- Between such quotes the characters stand for the text: no quote closes the string before their end,
and each backslash gives way to the character behind it. -/
inductive Quoted (quote : Char) : List Char → List Char → Prop where
  | nil : Quoted quote [] []
  | plain {c cs text} : c ≠ quote → c ≠ '\\' → Quoted quote cs text → Quoted quote (c :: cs) (c :: text)
  | escaped {c cs text} : Quoted quote cs text → Quoted quote ('\\' :: c :: cs) (c :: text)

/-- The characters spell the lexeme. -/
inductive Spells : List Char → Lexeme → Prop where
  | openParen : Spells ['('] .openParen
  | closeParen : Spells [')'] .closeParen
  | openBracket : Spells ['['] .openBracket
  | closeBracket : Spells [']'] .closeBracket
  | comma : Spells [','] .comma
  | equal : Spells ['=', '='] (.comparison .equal)
  | notEqual : Spells ['!', '='] (.comparison .notEqual)
  | greater : Spells ['>'] (.comparison .greater)
  | greaterOrEqual : Spells ['>', '='] (.comparison .greaterOrEqual)
  | less : Spells ['<'] (.comparison .less)
  | lessOrEqual : Spells ['<', '='] (.comparison .lessOrEqual)
  | and : Spells ['&', '&'] (.connective .and)
  | or : Spells ['|', '|'] (.connective .or)
  | string {quote cs text} : quote = '"' ∨ quote = '\'' → Quoted quote cs text →
      Spells (quote :: (cs ++ [quote])) (.string (String.ofList text))
  | number {first rest} : IsRun first rest → Spells (first :: rest) (.number (String.ofList (first :: rest)))
  | keyword {first rest l} : IsWord first rest → Reserved (lowered (first :: rest)) l → Spells (first :: rest) l
  | name {first rest} : IsWord first rest → (∀ l, ¬ Reserved (lowered (first :: rest)) l) →
      Spells (first :: rest) (.name (String.ofList (first :: rest)))

/-- The text spells the lexeme, and no lexeme that begins where it does, with the rest behind it, is
longer. -/
structure Longest (text : List Char) (l : Lexeme) (rest : List Char) : Prop where
  spells : Spells text l
  longest : ∀ other m, Spells other m → other <+: text ++ rest → other.length ≤ text.length

/-! ### Words -/

theorem reserved_iff {word : String} {l : Lexeme} : Reserved word l ↔ keywords.lookup word = some l := by
  constructor
  · intro h
    cases h <;> rfl
  · intro h
    have mem : (word, l) ∈ keywords := Keyed.mem_of_lookup h
    simp only [keywords, List.mem_cons, Prod.mk.injEq, List.not_mem_nil, or_false] at mem
    rcases mem with ⟨rfl, rfl⟩ | ⟨rfl, rfl⟩ | ⟨rfl, rfl⟩ | ⟨rfl, rfl⟩ | ⟨rfl, rfl⟩ | ⟨rfl, rfl⟩ | ⟨rfl, rfl⟩
    · exact .true
    · exact .false
    · exact .null
    · exact .and
    · exact .or
    · exact .memberOf
    · exact .contains

theorem keyword?_eq_some_iff {word : List Char} {l : Lexeme} :
    keyword? word = some l ↔ Reserved (lowered word) l :=
  reserved_iff.symm

theorem keyword?_eq_none {word : List Char} (free : ∀ l, ¬ Reserved (lowered word) l) : keyword? word = none :=
  Option.eq_none_iff_forall_ne_some.mpr fun l h => free l (keyword?_eq_some_iff.mp h)

/-- A word spells what the scanner makes of it. -/
theorem spells_word {first : Char} {rest : List Char} (word : IsWord first rest) :
    Spells (first :: rest) ((keyword? (first :: rest)).getD (.name (String.ofList (first :: rest)))) := by
  cases known : keyword? (first :: rest) with
  | some l => exact .keyword word (keyword?_eq_some_iff.mp known)
  | none =>
    refine .name word fun l reserved => ?_
    rw [keyword?_eq_some_iff.mpr reserved] at known
    cases known

/-! ### Strings -/

section
variable {quote c : Char} {cs text : List Char} {length : Nat}

theorem unquote?_close (cs : List Char) : unquote? quote (quote :: cs) = some ([], 1) := by
  cases cs <;> simp [unquote?]

theorem unquote?_plain (noQuote : c ≠ quote) (noSlash : c ≠ '\\') : unquote? quote (c :: cs) =
    (unquote? quote cs).map fun (text, length) => (c :: text, length + 1) := by
  cases cs <;> simp [unquote?, noQuote, noSlash]

theorem unquote?_slash (noQuote : '\\' ≠ quote) : unquote? quote ('\\' :: c :: cs) =
    (unquote? quote cs).map fun (text, length) => (c :: text, length + 2) := by
  simp [unquote?, noQuote]

theorem unquote?_of_quoted (h : Quoted quote cs text) (noSlash : '\\' ≠ quote) (rest : List Char) :
    unquote? quote (cs ++ quote :: rest) = some (text, cs.length + 1) := by
  induction h with
  | nil => exact unquote?_close rest
  | plain noQuote plain _ ih =>
    rw [List.cons_append, unquote?_plain noQuote plain, ih]
    rfl
  | escaped _ ih =>
    rw [List.cons_append, List.cons_append, unquote?_slash noSlash, ih]
    rfl

/-- What is unquoted stands between quotes, with the closing one counted. -/
theorem quoted_of_unquote? (h : unquote? quote cs = some (text, length)) :
    ∃ inside rest, cs = inside ++ quote :: rest ∧ length = inside.length + 1 ∧ Quoted quote inside text := by
  fun_induction unquote? quote cs generalizing text length with
  | case1 => cases h
  | case2 =>
    cases h
    exact ⟨[], [], rfl, rfl, .nil⟩
  | case3 => cases h
  | case4 next rest =>
    cases h
    exact ⟨[], next :: rest, rfl, rfl, .nil⟩
  | case5 next rest noQuote ih =>
    obtain ⟨⟨body, used⟩, found, heq⟩ := Option.map_eq_some_iff.mp h
    cases heq
    obtain ⟨inside, behind, rfl, rfl, quoted⟩ := ih found
    exact ⟨'\\' :: next :: inside, behind, rfl, rfl, .escaped quoted⟩
  | case6 c next rest noQuote noSlash ih =>
    obtain ⟨⟨body, used⟩, found, heq⟩ := Option.map_eq_some_iff.mp h
    cases heq
    obtain ⟨inside, behind, heq, rfl, quoted⟩ := ih found
    exact ⟨c :: inside, behind, by rw [heq, List.cons_append], rfl, .plain noQuote noSlash quoted⟩

end

/-! ### Runs -/

section
variable {c : Char} {run rest : List Char}

theorem prefix_takeWhile {p : Char → Bool} (starts : run <+: rest) (all : ∀ c ∈ run, p c = true) :
    run <+: rest.takeWhile p := by
  obtain ⟨more, rfl⟩ := starts
  rw [List.takeWhile_append_of_pos all]
  exact List.prefix_append _ _

theorem stop_dropWhile {p : Char → Bool} : ∀ c ∈ (rest.dropWhile p).head?, p c = false := by
  intro c hc
  have := List.head?_dropWhile_not p rest
  rw [Option.mem_def.mp hc] at this
  simpa using this

theorem first_word (offset : Nat) (start : isNameStart c = true) :
    Lexeme.first offset c rest = .ok ((keyword? (c :: rest.takeWhile isNameChar)).getD
      (.name (String.ofList (c :: rest.takeWhile isNameChar))), (rest.takeWhile isNameChar).length) := by
  have scanned : Lexeme.first offset c (rest.takeWhile isNameChar ++ rest.dropWhile isNameChar) = _ :=
    first_name offset start (fun d mem => List.mem_takeWhile_imp mem) stop_dropWhile
  rwa [List.takeWhile_append_dropWhile] at scanned

/-- Where a run begins, all that can belong to it does. -/
theorem isRun_takeWhile (start : c.isDigit = true ∨ c = '-' ∧ rest.head?.any Char.isDigit = true) :
    IsRun c (rest.takeWhile isNumberChar) := by
  refine ⟨start.imp_right (And.imp_right fun digit => ?_), fun d mem => List.mem_takeWhile_imp mem⟩
  cases rest with
  | nil => cases digit
  | cons d rest =>
    have digit : d.isDigit = true := digit
    rw [List.takeWhile_cons_of_pos (isNumberChar_of_isDigit digit)]
    exact digit

theorem first_run (offset : Nat) (start : c.isDigit = true ∨ c = '-' ∧ rest.head?.any Char.isDigit = true) :
    Lexeme.first offset c rest = .ok (.number (String.ofList (c :: rest.takeWhile isNumberChar)),
      (rest.takeWhile isNumberChar).length) := by
  have scanned : Lexeme.first offset c (rest.takeWhile isNumberChar ++ rest.dropWhile isNumberChar) = _ :=
    first_number offset (isRun_takeWhile start) stop_dropWhile
  rwa [List.takeWhile_append_dropWhile] at scanned

end

/-! ### The scanner takes the longest lexeme -/

namespace Lexeme

variable {offset used : Nat} {c : Char} {text rest : List Char} {l : Lexeme}

/-- **No lexeme is missed.** Where the spelling of a lexeme begins, the scanner finds one that is as long
or longer, and if it is as long it is that lexeme. -/
theorem first_of_spells (h : Spells text l) (starts : text <+: c :: rest) (offset : Nat) :
    ∃ m used, first offset c rest = .ok (m, used) ∧ text.length ≤ used + 1 ∧
      (text.length = used + 1 → m = l) := by
  cases h with
  | openParen | closeParen | openBracket | closeBracket | comma =>
    obtain ⟨rfl, -⟩ := List.cons_prefix_cons.mp starts
    exact ⟨_, 0, rfl, le_rfl, fun _ => rfl⟩
  | equal | notEqual | greaterOrEqual | lessOrEqual | and | or =>
    obtain ⟨rfl, rest, rfl⟩ := List.cons_prefix_cons.mp starts
    exact ⟨_, 1, rfl, le_rfl, fun _ => rfl⟩
  | greater | less =>
    -- an equals sign behind it would make the longer operator
    obtain ⟨rfl, -⟩ := List.cons_prefix_cons.mp starts
    by_cases next : rest.head? = some '='
    · exact ⟨_, 1, if_pos next, by simp, by simp⟩
    · exact ⟨_, 0, if_neg next, le_rfl, fun _ => rfl⟩
  | @string quote cs text isQuote quoted =>
    obtain ⟨rfl, rest, rfl⟩ := List.cons_prefix_cons.mp starts
    have noSlash : '\\' ≠ quote := by
      rintro rfl
      exact absurd isQuote (by decide)
    have inside := unquote?_of_quoted quoted noSlash rest
    refine ⟨.string (String.ofList text), cs.length + 1, ?_, by simp, fun _ => rfl⟩
    rcases isQuote with rfl | rfl <;> simp [first, inside]
  | @number d run number =>
    obtain ⟨rfl, begins⟩ := List.cons_prefix_cons.mp starts
    have start : d.isDigit = true ∨ d = '-' ∧ rest.head?.any Char.isDigit = true := by
      refine number.start.imp_right (And.imp_right fun digit => ?_)
      obtain ⟨more, rfl⟩ := begins
      cases run with
      | nil => cases digit
      | cons => exact digit
    have within := prefix_takeWhile begins number.all
    refine ⟨_, _, first_run offset start, Nat.succ_le_succ within.length_le, fun same => ?_⟩
    rw [within.eq_of_length (Nat.succ.inj same)]
  | @keyword d run _ word reserved =>
    obtain ⟨rfl, begins⟩ := List.cons_prefix_cons.mp starts
    have within := prefix_takeWhile begins fun d mem => isNameChar_iff.mpr (word.all d mem)
    have scanned : first offset d rest = _ := first_word offset (isNameStart_iff.mpr word.start)
    refine ⟨_, _, scanned, Nat.succ_le_succ within.length_le, fun same => ?_⟩
    rw [← within.eq_of_length (Nat.succ.inj same), keyword?_eq_some_iff.mpr reserved, Option.getD_some]
  | @name d run word free =>
    obtain ⟨rfl, begins⟩ := List.cons_prefix_cons.mp starts
    have within := prefix_takeWhile begins fun d mem => isNameChar_iff.mpr (word.all d mem)
    have scanned : first offset d rest = _ := first_word offset (isNameStart_iff.mpr word.start)
    refine ⟨_, _, scanned, Nat.succ_le_succ within.length_le, fun same => ?_⟩
    rw [← within.eq_of_length (Nat.succ.inj same), keyword?_eq_none free, Option.getD_none]

theorem eq_cons_of_head? {second : Char} (h : rest.head? = some second) :
    ∃ behind, rest = second :: behind := by
  cases rest with
  | nil => cases h
  | cons d behind =>
    cases h
    exact ⟨behind, rfl⟩

/-- What the scanner takes is spelled by what it takes it from. -/
theorem spells_of_first (h : first offset c rest = .ok (l, used)) :
    ∃ text behind, rest = text ++ behind ∧ used = text.length ∧ Spells (c :: text) l := by
  have paired {second : Char} {m : Lexeme} (spells : Spells [c, second] m)
      (hp : pair offset c second m rest = .ok (l, used)) :
      ∃ text behind, rest = text ++ behind ∧ used = text.length ∧ Spells (c :: text) l := by
    unfold pair at hp
    split at hp
    · rename_i next
      obtain ⟨behind, rfl⟩ := eq_cons_of_head? next
      cases hp
      exact ⟨[second], behind, rfl, rfl, spells⟩
    · cases hp
  unfold first at h
  split at h
  case h_1 => cases h; exact ⟨[], rest, rfl, rfl, .openParen⟩
  case h_2 => cases h; exact ⟨[], rest, rfl, rfl, .closeParen⟩
  case h_3 => cases h; exact ⟨[], rest, rfl, rfl, .openBracket⟩
  case h_4 => cases h; exact ⟨[], rest, rfl, rfl, .closeBracket⟩
  case h_5 => cases h; exact ⟨[], rest, rfl, rfl, .comma⟩
  case h_6 => exact paired .equal h
  case h_7 => exact paired .notEqual h
  case h_8 => exact paired .and h
  case h_9 => exact paired .or h
  case h_10 =>
    split at h
    · rename_i next
      obtain ⟨behind, rfl⟩ := eq_cons_of_head? next
      cases h
      exact ⟨['='], behind, rfl, rfl, .greaterOrEqual⟩
    · cases h
      exact ⟨[], rest, rfl, rfl, .greater⟩
  case h_11 =>
    split at h
    · rename_i next
      obtain ⟨behind, rfl⟩ := eq_cons_of_head? next
      cases h
      exact ⟨['='], behind, rfl, rfl, .lessOrEqual⟩
    · cases h
      exact ⟨[], rest, rfl, rfl, .less⟩
  case h_12 =>
    split at h
    · rename_i isQuote
      split at h
      · rename_i body length found
        cases h
        obtain ⟨inside, behind, rfl, rfl, quoted⟩ := quoted_of_unquote? found
        exact ⟨inside ++ [c], behind, by simp, by simp, .string isQuote quoted⟩
      · cases h
    split at h
    · rename_i start
      cases h
      exact ⟨_, _, List.takeWhile_append_dropWhile.symm, rfl, .number (isRun_takeWhile start)⟩
    split at h
    · rename_i start
      cases h
      have word : IsWord c (rest.takeWhile isNameChar) :=
        ⟨isNameStart_iff.mp start, fun d mem => isNameChar_iff.mp (List.mem_takeWhile_imp mem)⟩
      exact ⟨_, _, List.takeWhile_append_dropWhile.symm, rfl, spells_word word⟩
    · cases h

/-- **The longest lexeme is taken.** -/
theorem longest_of_first (h : first offset c rest = .ok (l, used)) :
    ∃ text behind, rest = text ++ behind ∧ used = text.length ∧ Longest (c :: text) l behind := by
  obtain ⟨text, behind, rfl, rfl, spells⟩ := spells_of_first h
  refine ⟨text, behind, rfl, rfl, spells, fun other m others starts => ?_⟩
  obtain ⟨m', used, found, shorter, -⟩ := first_of_spells others starts offset
  cases h.symm.trans found
  exact shorter

end Lexeme

theorem Spells.ne_nil {text : List Char} {l : Lexeme} (h : Spells text l) : text ≠ [] := by
  cases h <;> simp

namespace Longest

variable {c : Char} {text rest : List Char} {l m : Lexeme}

/-- The scanner takes the longest lexeme. -/
theorem first (h : Longest (c :: text) l rest) (offset : Nat) :
    Lexeme.first offset c (text ++ rest) = .ok (l, text.length) := by
  have begins : c :: text <+: c :: (text ++ rest) := List.prefix_append (c :: text) rest
  obtain ⟨m, used, found, shorter, same⟩ := Lexeme.first_of_spells h.spells begins offset
  obtain ⟨taken, behind, heq, rfl, spells⟩ := Lexeme.spells_of_first found
  have starts : c :: taken <+: c :: (text ++ rest) := by
    rw [heq]
    exact List.prefix_append (c :: taken) behind
  have longer := h.longest (c :: taken) m spells starts
  simp only [List.length_cons] at shorter longer same
  have lengths : text.length = taken.length := by omega
  rw [found, same (by omega), lengths]

/-- The longest text spells one lexeme. -/
theorem lexeme_eq (h : Longest text l rest) (other : Spells text m) : m = l := by
  cases text with
  | nil => exact absurd rfl other.ne_nil
  | cons c text =>
    have again : Longest (c :: text) m rest := ⟨other, h.longest⟩
    cases (again.first 0).symm.trans (h.first 0)
    rfl

end Longest
end RecordRules
