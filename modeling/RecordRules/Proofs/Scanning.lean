/-
# Scanning what is spelled

The canonical spelling of a lexeme is scanned as that lexeme, as long as a word is not
followed by a character that could go on with it. Words are the names, numbers and
keywords: the lexemes that no character of their own ends. Operators carry blanks,
brackets and commas are single characters, and a string ends at its closing quote, which
none of the escaped characters in it is taken for. So the spellings of lexemes in a row
are scanned as those lexemes if no two words stand side by side (`scan_canonical`).

In the other direction, whatever text is scanned, the names among its lexemes are names
(`isName_of_scan`): letters, digits, `_` and `.`, not beginning with a digit or a point,
and none of the words of the language in any case.

Key definitions: `IsName`, `Lexeme.Spelled`, `Scans`. Key theorems: `scan_canonical`,
`isName_of_scan`.
-/
import RecordRules.Proofs.ReadBack

namespace RecordRules

/-! ### Names -/

/-- A text that can be the name of a field or a function. -/
structure IsName (name : String) : Prop where
  shape : ∃ first rest, name.toList = first :: rest ∧ (first.isAlpha = true ∨ first = '_') ∧
    ∀ c ∈ rest, c.isAlphanum = true ∨ c = '_' ∨ c = '.'
  notReserved : String.ofList (name.toList.map Char.toLower) ∉
    ["true", "false", "null", "and", "or", "in", "contains"]

theorem isNameStart_iff {c : Char} : isNameStart c = true ↔ c.isAlpha = true ∨ c = '_' := by
  simp [isNameStart]

theorem isNameChar_iff {c : Char} : isNameChar c = true ↔ c.isAlphanum = true ∨ c = '_' ∨ c = '.' := by
  simp [isNameChar, or_assoc]

theorem keyword?_eq_none_iff {word : List Char} : keyword? word = none ↔
    String.ofList (word.map Char.toLower) ∉ ["true", "false", "null", "and", "or", "in", "contains"] := by
  rw [keyword?, List.lookup_eq_none_iff]
  simp [keywords]

/-- A keyword is no name. -/
theorem keyword?_ne_name {word : List Char} {name : String} : keyword? word ≠ some (.name name) := by
  intro h
  obtain ⟨before, after, heq, _⟩ := List.lookup_eq_some_iff.mp h
  have mem : (String.ofList (word.map Char.toLower), Lexeme.name name) ∈ keywords := by
    rw [heq]
    exact List.mem_append_right _ List.mem_cons_self
  simp [keywords] at mem

/-! ### Kinds of characters -/

section
variable {c : Char}

theorem toNat_of_isDigit (h : c.isDigit = true) : 48 ≤ c.toNat ∧ c.toNat ≤ 57 := by
  simp only [Char.isDigit, ge_iff_le, Bool.and_eq_true, decide_eq_true_eq] at h
  exact h

theorem toNat_of_isNameStart (h : isNameStart c = true) : 65 ≤ c.toNat ∧ c.toNat ≤ 122 := by
  rcases isNameStart_iff.mp h with h | rfl
  · simp only [Char.isAlpha, Char.isUpper, Char.isLower, ge_iff_le, Bool.or_eq_true, Bool.and_eq_true,
      decide_eq_true_eq] at h
    rcases h with ⟨low, high⟩ | ⟨low, high⟩
    · exact ⟨low, Nat.le_trans high (by decide)⟩
    · exact ⟨Nat.le_trans (by decide) low, high⟩
  · decide

theorem not_blank (low : 33 ≤ c.toNat) (high : c.toNat ≤ 126) : Text.isBlank c = false := by
  simp [Text.isBlank, Text.blankRanges]
  omega

end

/-! ### The first lexeme -/

section
variable {c : Char} {run rest : List Char}

theorem first_name (offset : Nat) (start : isNameStart c = true) (all : ∀ d ∈ run, isNameChar d = true)
    (stop : ∀ d ∈ rest.head?, isNameChar d = false) : Lexeme.first offset c (run ++ rest) =
      .ok ((keyword? (c :: run)).getD (.name (String.ofList (c :: run))), run.length) := by
  have noQuote : ¬(c = '"' ∨ c = '\'') := by
    rintro (rfl | rfl) <;> exact absurd start (by decide)
  have noNumber : ¬(c.isDigit = true ∨ c = '-' ∧ (run ++ rest).head?.any Char.isDigit = true) := by
    rintro (digit | ⟨rfl, _⟩)
    · have := toNat_of_isDigit digit
      have := toNat_of_isNameStart start
      omega
    · exact absurd start (by decide)
  unfold Lexeme.first
  split
  case h_12 => rw [if_neg noQuote, if_neg noNumber, if_pos start, takeWhile_run all stop]
  all_goals exact absurd start (by decide)

theorem first_number (offset : Nat) (number : IsRun c run) (stop : ∀ d ∈ rest.head?, isNumberChar d = false) :
    Lexeme.first offset c (run ++ rest) = .ok (.number (String.ofList (c :: run)), run.length) := by
  obtain ⟨start, all⟩ := number
  have plain : c.isDigit = true ∨ c = '-' := start.imp_right And.left
  have noQuote : ¬(c = '"' ∨ c = '\'') := by
    rintro (rfl | rfl) <;> exact absurd plain (by decide)
  have within : c.isDigit = true ∨ c = '-' ∧ (run ++ rest).head?.any Char.isDigit = true := by
    refine start.imp_right fun ⟨minus, digit⟩ => ⟨minus, ?_⟩
    cases run with
    | nil => cases digit
    | cons => exact digit
  unfold Lexeme.first
  split
  case h_12 => rw [if_neg noQuote, if_pos within, takeWhile_run all stop]
  all_goals exact absurd plain (by decide)

/-- Escaping is undone up to the closing quote. -/
theorem unquote?_escaped (cs rest : List Char) :
    unquote? '\'' (cs.flatMap escaped ++ '\'' :: rest) = some (cs, (cs.flatMap escaped).length + 1) := by
  induction cs with
  | nil => cases rest <;> rfl
  | cons c cs ih =>
    rw [List.flatMap_cons, List.append_assoc]
    by_cases special : c = '\\' ∨ c = '\''
    · rw [escaped, if_pos special]
      simp [unquote?, ih]
    · obtain ⟨noSlash, noQuote⟩ := not_or.mp special
      rw [escaped, if_neg special]
      obtain ⟨d, more, heq⟩ : ∃ d more, cs.flatMap escaped ++ '\'' :: rest = d :: more := by
        cases cs.flatMap escaped <;> exact ⟨_, _, rfl⟩
      rw [heq] at ih
      simp [heq, unquote?, noSlash, noQuote, ih]

theorem first_string (offset : Nat) (cs rest : List Char) :
    Lexeme.first offset '\'' (cs.flatMap escaped ++ '\'' :: rest) =
      .ok (.string (String.ofList cs), (cs.flatMap escaped).length + 1) := by
  simp [Lexeme.first, unquote?_escaped]

end

/-! ### Runs of lexemes -/

/-- The characters are scanned as the lexemes, wherever they stand. -/
def Scans (cs : List Char) (ls : List Lexeme) : Prop :=
  ∀ p, ∃ tokens, Token.scanFrom p cs = .ok tokens ∧ tokens.map Token.lexeme = ls ++ [.finish]

section
variable {cs : List Char} {l : Lexeme} {ls : List Lexeme}

theorem scans_nil : Scans [] [] := fun p => ⟨_, Token.scanFrom.eq_1 p, rfl⟩

theorem Scans.blank (h : Scans cs ls) (c : Char) (blank : Text.isBlank c = true) : Scans (c :: cs) ls := by
  intro p
  rw [Token.scanFrom, if_pos blank]
  exact h _

theorem Scans.lexeme (h : Scans cs ls) (c : Char) (used : List Char) (solid : Text.isBlank c = false)
    (first : ∀ offset, Lexeme.first offset c (used ++ cs) = .ok (l, used.length)) :
    Scans (c :: (used ++ cs)) (l :: ls) := by
  intro p
  obtain ⟨tokens, scanned, lexemes⟩ := h (p.pastLexeme (c :: used))
  rw [Token.scanFrom, if_neg (by simp [solid]), first]
  simp only [List.take_left, List.drop_left, scanned]
  exact ⟨_, rfl, by rw [List.map_cons, lexemes]; rfl⟩

theorem Scans.name (h : Scans cs ls) (c : Char) (used : List Char) (start : isNameStart c = true)
    (all : ∀ d ∈ used, isNameChar d = true) (stop : ∀ d ∈ cs.head?, isNameChar d = false) :
    Scans (c :: (used ++ cs)) ((keyword? (c :: used)).getD (.name (String.ofList (c :: used))) :: ls) := by
  obtain ⟨low, high⟩ := toNat_of_isNameStart start
  exact h.lexeme c used (not_blank (by omega) (by omega)) fun offset => first_name offset start all stop

theorem Scans.keyword (h : Scans cs ls) (c : Char) (used : List Char) (known : keyword? (c :: used) = some l)
    (word : isNameStart c && used.all isNameChar) (stop : ∀ d ∈ cs.head?, isNameChar d = false) :
    Scans (c :: (used ++ cs)) (l :: ls) := by
  obtain ⟨start, all⟩ := Bool.and_eq_true_iff.mp word
  have := h.name c used start (List.all_eq_true.mp all) stop
  rwa [known, Option.getD_some] at this

theorem Scans.number (h : Scans cs ls) (c : Char) (used : List Char) (number : IsRun c used)
    (stop : ∀ d ∈ cs.head?, isNumberChar d = false) :
    Scans (c :: (used ++ cs)) (.number (String.ofList (c :: used)) :: ls) := by
  refine h.lexeme c used ?_ fun offset => first_number offset number stop
  rcases number.start with digit | ⟨rfl, _⟩
  · obtain ⟨low, high⟩ := toNat_of_isDigit digit
    exact not_blank (by omega) (by omega)
  · decide

end

/-! ### Canonical spellings -/

namespace Lexeme

/-- Nothing of its own ends the lexeme, so it goes on as long as it can. -/
def isWord : Lexeme → Bool
  | .number _ | .boolean _ | .null | .name _ => true
  | _ => false

/-- The lexeme has a spelling: names are names, and numbers are runs of digits. -/
def Spelled : Lexeme → Prop
  | .name path => IsName path
  | .number digits => ∃ first rest, digits.toList = first :: rest ∧ IsRun first rest
  | .finish => False
  | _ => True

end Lexeme

section
variable {cs : List Char} {l : Lexeme} {ls : List Lexeme}

theorem isNumberChar_eq_false {c : Char} (h : isNameChar c = false) : isNumberChar c = false := by
  simp [isNameChar, isNumberChar, Char.isAlphanum] at h ⊢
  tauto

/-- **One lexeme.** Its spelling is scanned as the lexeme, if it is no word that goes on. -/
theorem Scans.canonical (h : Scans cs ls) (spelled : l.Spelled)
    (apart : l.isWord = true → ∀ c ∈ cs.head?, isNameChar c = false) :
    Scans (l.canonical ++ cs) (l :: ls) := by
  have blank := h.blank ' ' rfl
  have gap : ∀ d ∈ (' ' :: cs).head?, isNameChar d = false := by rintro _ ⟨⟩; rfl
  cases l with
  | openParen => exact h.lexeme '(' [] rfl fun _ => rfl
  | closeParen => exact h.lexeme ')' [] rfl fun _ => rfl
  | openBracket => exact h.lexeme '[' [] rfl fun _ => rfl
  | closeBracket => exact h.lexeme ']' [] rfl fun _ => rfl
  | comma => exact blank.lexeme ',' [] rfl fun _ => rfl
  | comparison op =>
    cases op with
    | equal => exact (blank.lexeme '=' ['='] rfl fun _ => rfl).blank ' ' rfl
    | notEqual => exact (blank.lexeme '!' ['='] rfl fun _ => rfl).blank ' ' rfl
    | greater => exact (blank.lexeme '>' [] rfl fun _ => rfl).blank ' ' rfl
    | greaterOrEqual => exact (blank.lexeme '>' ['='] rfl fun _ => rfl).blank ' ' rfl
    | less => exact (blank.lexeme '<' [] rfl fun _ => rfl).blank ' ' rfl
    | lessOrEqual => exact (blank.lexeme '<' ['='] rfl fun _ => rfl).blank ' ' rfl
    | memberOf => exact (blank.keyword 'i' ['n'] rfl rfl gap).blank ' ' rfl
    | contains => exact (blank.keyword 'c' ['o', 'n', 't', 'a', 'i', 'n', 's'] rfl rfl gap).blank ' ' rfl
  | connective op =>
    cases op with
    | and => exact (blank.keyword 'a' ['n', 'd'] rfl rfl gap).blank ' ' rfl
    | or => exact (blank.keyword 'o' ['r'] rfl rfl gap).blank ' ' rfl
  | string s =>
    have scanned (offset : Nat) : Lexeme.first offset '\'' (s.toList.flatMap escaped ++ ['\''] ++ cs) =
        .ok (.string s, (s.toList.flatMap escaped ++ ['\'']).length) := by
      rw [List.append_assoc, List.singleton_append, first_string, String.ofList_toList, List.length_append,
        List.length_singleton]
    exact h.lexeme '\'' (s.toList.flatMap escaped ++ ['\'']) rfl scanned
  | number digits =>
    obtain ⟨first, run, heq, number⟩ := spelled
    have := h.number first run number fun d hd => isNumberChar_eq_false (apart rfl d hd)
    rwa [← heq, String.ofList_toList, ← List.cons_append, ← heq] at this
  | boolean b =>
    cases b with
    | true => exact h.keyword 't' ['r', 'u', 'e'] rfl rfl (apart rfl)
    | false => exact h.keyword 'f' ['a', 'l', 's', 'e'] rfl rfl (apart rfl)
  | null => exact h.keyword 'n' ['u', 'l', 'l'] rfl rfl (apart rfl)
  | name path =>
    obtain ⟨first, run, heq, start, all⟩ := spelled.shape
    have free : keyword? (first :: run) = none := keyword?_eq_none_iff.mpr (heq ▸ spelled.notReserved)
    have more : ∀ d ∈ run, isNameChar d = true := fun d hd => isNameChar_iff.mpr (all d hd)
    have := h.name first run (isNameStart_iff.mpr start) more (apart rfl)
    rwa [free, Option.getD_none, ← heq, String.ofList_toList, ← List.cons_append, ← heq] at this
  | finish => exact spelled.elim

/-- Behind a word, the spelling of any other lexeme ends it. -/
theorem Lexeme.canonical_eq_cons (spelled : l.Spelled) (h : l.isWord = false) :
    ∃ c rest, l.canonical = c :: rest ∧ isNameChar c = false := by
  cases l with
  | finish => exact spelled.elim
  | number | boolean | null | name => cases h
  | _ => exact ⟨_, _, rfl, rfl⟩

end

/-- Not both are words. -/
def Lexeme.Apart (l m : Lexeme) : Prop := ¬(l.isWord = true ∧ m.isWord = true)

theorem scans_flatMap_canonical {ls : List Lexeme} (spelled : ∀ l ∈ ls, l.Spelled)
    (apart : ls.IsChain Lexeme.Apart) : Scans (ls.flatMap Lexeme.canonical) ls := by
  induction ls with
  | nil => exact scans_nil
  | cons l ls ih =>
    obtain ⟨here, more⟩ := List.forall_mem_cons.mp spelled
    rw [List.flatMap_cons]
    refine (ih more apart.tail).canonical here fun word => ?_
    cases ls with
    | nil => nofun
    | cons m ls =>
      have other : m.isWord = false := by
        by_contra both
        exact apart.rel ⟨word, by simpa using both⟩
      obtain ⟨c, rest, heq, stop⟩ := Lexeme.canonical_eq_cons (more m List.mem_cons_self) other
      rw [List.flatMap_cons, heq]
      rintro _ ⟨⟩
      exact stop

/-- **Spellings in a row.** The spellings of lexemes, no two of them words side by side, are scanned as
those lexemes. -/
theorem scan_canonical {ls : List Lexeme} (spelled : ∀ l ∈ ls, l.Spelled)
    (apart : ls.IsChain Lexeme.Apart) :
    ∃ tokens, Token.scan (String.ofList (ls.flatMap Lexeme.canonical)) = .ok tokens ∧
      tokens.map Token.lexeme = ls ++ [.finish] := by
  rw [Token.scan, String.toList_ofList]
  exact scans_flatMap_canonical spelled apart .origin

/-! ### The names in a text -/

theorem isName_of_first {offset : Nat} {c : Char} {rest : List Char} {name : String} {used : Nat}
    (h : Lexeme.first offset c rest = .ok (.name name, used)) : IsName name := by
  unfold Lexeme.first at h
  split at h
  case h_1 | h_2 | h_3 | h_4 | h_5 => cases h
  case h_6 | h_7 | h_8 | h_9 => unfold pair at h; split at h <;> cases h
  case h_10 | h_11 => split at h <;> cases h
  case h_12 =>
    split at h
    · split at h <;> cases h
    split at h
    · cases h
    split at h
    · rename_i start
      dsimp only at h
      cases known : keyword? (c :: rest.takeWhile isNameChar) with
      | some l =>
        rw [known, Option.getD_some] at h
        cases h
        exact absurd known keyword?_ne_name
      | none =>
        rw [known, Option.getD_none] at h
        cases h
        refine ⟨⟨c, rest.takeWhile isNameChar, String.toList_ofList, isNameStart_iff.mp start, ?_⟩, ?_⟩
        · exact fun d mem => isNameChar_iff.mp (List.mem_takeWhile_imp mem)
        · rw [String.toList_ofList]
          exact keyword?_eq_none_iff.mp known
    · cases h

theorem isName_of_scanFrom {p : Position} {cs : List Char} {tokens : List Token} {name : String}
    (h : Token.scanFrom p cs = .ok tokens) (mem : .name name ∈ tokens.map Token.lexeme) : IsName name := by
  fun_induction Token.scanFrom p cs generalizing tokens with
  | case1 p =>
    cases h
    simp at mem
  | case2 p c rest blank ih => exact ih h mem
  | case3 | case4 => cases h
  | case5 p c rest solid lexeme used first next more scanned =>
    rename_i ih
    cases h
    rcases List.mem_cons.mp mem with rfl | mem
    · exact isName_of_first first
    · exact ih scanned mem

/-- **Names are names.** Each name among the lexemes of a text is one. -/
theorem isName_of_scan {source : String} {tokens : List Token} {name : String}
    (h : Token.scan source = .ok tokens) (mem : .name name ∈ tokens.map Token.lexeme) : IsName name :=
  isName_of_scanFrom h mem

end RecordRules
