/-
# Texts side by side

Where a lexeme ends is decided by one character: what spells a lexeme is the longest at its
place unless, with the character behind it, it spells the beginning of a longer one
(`longest_iff`). Some characters go on with no lexeme that is complete without them, blanks
and parentheses among them (`Divides`). In front of such a character a text falls into the
same lexemes whatever stands behind it (`Crosses.scans_append`).

So a text in parentheses is scanned as its own lexemes in parentheses, and expressions that
are joined so are operands of the operator between them, with no lexeme lost and none taken
for another (`parse_joined`). And the lexemes of a text may be moved apart: with blanks
between any two of them they are the same lexemes, and all that can differ is where they
stand, which faults tell but formulas do not (`parse_spaced`).

Key definitions: `Divides`, `Spaced`. Key theorems: `longest_iff`, `Crosses.scans_append`,
`parse_joined`, `parse_spaced`.
-/
import RecordRules.Evaluate
import RecordRules.Proofs.Limiting
import RecordRules.Proofs.RoundTrip

namespace RecordRules

/-! ### Where a lexeme ends -/

/-- The character goes on with no lexeme that is complete without it. -/
def Divides (c : Char) : Prop := isNameChar c = false ∧ c ≠ '=' ∧ c ≠ '&' ∧ c ≠ '|'

section
variable {c : Char} {text more cs rest : List Char} {l m : Lexeme} {ls : List Lexeme}

/-- What is quoted goes on to the last of its quotes: no lexeme ends before it. -/
theorem not_spells_within {quote : Char} {inside body : List Char} (isQuote : quote = '"' ∨ quote = '\'')
    (quoted : Quoted quote inside body) (h : Spells (quote :: text) l) : text ++ c :: more ≠ inside ++ [quote] := by
  intro same
  have noSlash : '\\' ≠ quote := by
    rintro rfl
    exact absurd isQuote (by decide)
  generalize begins : quote :: text = front at h
  cases h with
  | @string _ shorter _ _ first =>
    -- the two texts would be unquoted at one place to different lengths
    cases begins
    have lengths := congrArg List.length same
    rw [List.append_assoc] at same
    have short := unquote?_of_quoted first noSlash (c :: more)
    have long := unquote?_of_quoted quoted noSlash []
    have once := short.symm.trans ((congrArg (unquote? quote) same).trans long)
    simp only [Option.some.injEq, Prod.mk.injEq] at once
    simp only [List.length_append, List.length_cons, List.length_nil] at lengths
    omega
  | number run =>
    cases begins
    exact absurd (run.start.imp_right And.left) (by rcases isQuote with rfl | rfl <;> decide)
  | keyword word | name word =>
    cases begins
    exact absurd word.start (by rcases isQuote with rfl | rfl <;> decide)
  | _ =>
    cases begins
    exact absurd isQuote (by decide)

theorem not_divides_of_isNameChar (h : isNameChar c = true) : ¬ Divides c := fun divides => by
  rw [divides.1] at h
  cases h

/-- **One character decides.** If a lexeme can be made longer, it can be with the next character alone. -/
theorem spells_next (h : Spells text l) (longer : Spells (text ++ c :: more) m) :
    (∃ m', Spells (text ++ [c]) m') ∧ ¬ Divides c := by
  cases text with
  | nil => exact absurd rfl h.ne_nil
  | cons d text =>
    rw [List.cons_append] at longer
    generalize split : text ++ c :: more = behind at longer
    have word (isWord : IsWord d behind) : (∃ m', Spells (d :: text ++ [c]) m') ∧ ¬ Divides c := by
      subst split
      have inside : isNameChar c = true := isNameChar_iff.mpr (isWord.all c (by simp))
      have shorter : IsWord d (text ++ [c]) := ⟨isWord.start, fun x mem => isWord.all x (by simp at mem ⊢; tauto)⟩
      exact ⟨⟨_, spells_word shorter⟩, not_divides_of_isNameChar inside⟩
    cases longer with
    | openParen | closeParen | openBracket | closeBracket | comma | greater | less => simp at split
    | equal | notEqual | greaterOrEqual | lessOrEqual | and | or =>
      obtain ⟨rfl, only⟩ | ⟨_, none⟩ := List.append_eq_singleton_iff.mp split
      · cases only
        refine ⟨⟨_, by constructor⟩, fun divides => ?_⟩
        obtain ⟨_, notEquals, notAnd, notBar⟩ := divides
        contradiction
      · cases none
    | string isQuote quoted => exact absurd split (not_spells_within isQuote quoted h)
    | number run =>
      subst split
      have inside : isNameChar c = true := by
        by_contra outside
        have number := run.all c (by simp)
        rw [isNumberChar_eq_false (Bool.eq_false_iff.mpr outside)] at number
        cases number
      have start : d.isDigit = true ∨ d = '-' ∧ (text ++ [c]).head?.any Char.isDigit = true := by
        cases text <;> exact run.start
      have shorter : IsRun d (text ++ [c]) := ⟨start, fun x mem => run.all x (by simp at mem ⊢; tauto)⟩
      exact ⟨⟨_, .number shorter⟩, not_divides_of_isNameChar inside⟩
    | keyword isWord | name isWord => exact word isWord

/-- A lexeme is the longest at its place unless it is the beginning of another with the next character. -/
theorem longest_iff : Longest text l rest ↔ Spells text l ∧ ∀ c ∈ rest.head?, ∀ m, ¬ Spells (text ++ [c]) m := by
  constructor
  · refine fun h => ⟨h.spells, fun c next m spells => ?_⟩
    obtain ⟨more, rfl⟩ := Lexeme.eq_cons_of_head? next
    have starts : text ++ [c] <+: text ++ c :: more := ⟨more, by simp⟩
    have le := h.longest (text ++ [c]) m spells starts
    rw [List.length_append, List.length_singleton] at le
    omega
  · rintro ⟨spells, ends⟩
    refine ⟨spells, fun other m longer starts => ?_⟩
    by_contra lt
    obtain ⟨behind, rfl⟩ := List.prefix_of_prefix_length_le (List.prefix_append text rest) starts (by omega)
    cases behind with
    | nil => simp at lt
    | cons c more =>
      obtain ⟨last, rfl⟩ := (List.prefix_append_right_inj text).mp starts
      obtain ⟨⟨m', next⟩, _⟩ := spells_next spells longer
      exact ends c rfl m' next

namespace Longest

/-- In front of a character that divides, a lexeme ends. -/
theorem of_divides (h : Spells text l) (divided : ∀ c ∈ rest.head?, Divides c) : Longest text l rest :=
  longest_iff.mpr ⟨h, fun c next _ longer => (spells_next h longer).2 (divided c next)⟩

/-- What stands behind a character that divides has no say. -/
theorem append (h : Longest text l cs) (divided : ∀ c ∈ rest.head?, Divides c) : Longest text l (cs ++ rest) := by
  cases cs with
  | nil => exact of_divides h.spells divided
  | cons =>
    rw [longest_iff] at h ⊢
    exact h

end Longest

/-! ### Scanning up to a seam -/

theorem not_blank_of_isNameChar (h : isNameChar c = true) : Text.isBlank c = false := by
  rcases isNameChar_iff.mp h with letter | rfl | rfl
  · rw [Char.isAlphanum, Bool.or_eq_true] at letter
    rcases letter with letter | digit
    · obtain ⟨low, high⟩ := toNat_of_isNameStart (isNameStart_iff.mpr (.inl letter))
      exact not_blank (by omega) (by omega)
    · obtain ⟨low, high⟩ := toNat_of_isDigit digit
      exact not_blank (by omega) (by omega)
  · rfl
  · rfl

theorem divides_of_isBlank (h : Text.isBlank c = true) : Divides c := by
  refine ⟨?_, ?_, ?_, ?_⟩
  · by_contra inside
    rw [not_blank_of_isNameChar (by simpa using inside)] at h
    cases h
  all_goals
    rintro rfl
    exact absurd h (by decide)

/-- The longest lexeme, and what stands behind it. -/
theorem Scans.longest (h : Scans cs ls) (taken : Longest text l cs) : Scans (text ++ cs) (l :: ls) := by
  cases text with
  | nil => exact absurd rfl taken.spells.ne_nil
  | cons c used => exact h.lexeme c used (not_blank_of_spells taken.spells) taken.first

theorem Scans.blanks (h : Scans cs ls) (blank : ∀ c ∈ text, Text.isBlank c = true) : Scans (text ++ cs) ls := by
  induction text with
  | nil => exact h
  | cons c text ih =>
    obtain ⟨first, others⟩ := List.forall_mem_cons.mp blank
    exact (ih others).blank c first

/-- **Seams.** In front of a character that divides, a text falls into the lexemes that it falls into on its
own. -/
theorem Crosses.scans_append {p q : Position} {tokens : List Token} (h : Crosses p cs tokens q)
    (divided : ∀ c ∈ rest.head?, Divides c) (behind : Scans rest ls) :
    Scans (cs ++ rest) (tokens.map Token.lexeme ++ ls) := by
  induction h with
  | stay => exact behind
  | blank isBlank _ ih => exact ih.blank _ isBlank
  | lexeme taken _ ih =>
    rw [List.append_assoc]
    exact ih.longest (taken.append divided)

end

/-! ### Expressions that are joined -/

namespace Operator

/-- The spelling of an operator. -/
def symbol : Operator → String
  | comparison op => op.symbol
  | connective op => op.symbol

theorem spells_symbol (op : Operator) : Spells op.symbol.toList op.lexeme := by
  have word {first : Char} {rest : List Char} {l : Lexeme} (letters : (first :: rest).all Char.isAlpha = true)
      (reserved : Reserved (lowered (first :: rest)) l) : Spells (first :: rest) l := by
    obtain ⟨start, more⟩ := Bool.and_eq_true_iff.mp letters
    refine .keyword ⟨.inl start, fun c mem => .inl ?_⟩ reserved
    rw [Char.isAlphanum, List.all_eq_true.mp more c mem, Bool.true_or]
  cases op with
  | comparison op =>
    cases op with
    | equal => exact .equal
    | notEqual => exact .notEqual
    | greater => exact .greater
    | greaterOrEqual => exact .greaterOrEqual
    | less => exact .less
    | lessOrEqual => exact .lessOrEqual
    | memberOf => exact word rfl .memberOf
    | contains => exact word rfl .contains
  | connective op =>
    cases op with
    | and => exact word rfl .and
    | or => exact word rfl .or

end Operator

section
variable {s t word : String} {f g : Formula} {op : Operator}

/-- In a scan, what is read are the lexemes in front of `finish`. -/
theorem kinds_of_scan {source : String} {tokens : List Token} {ls : List Lexeme}
    (scanned : Token.scan source = .ok tokens) (lexemes : tokens.map Token.lexeme = ls ++ [.finish]) :
    Parse.kinds tokens = ls := by
  have split := congrArg (List.map Token.lexeme) (body_of_scan scanned)
  rw [List.map_append, lexemes] at split
  exact List.append_cancel_right split

/-- What is scanned on its own is crossed, and read as the lexemes that are crossed. -/
theorem crosses_of_parse (h : Formula.parse s = .ok f) : ∃ inner q, Crosses .origin s.toList inner q ∧
    Derives (inner.map Token.lexeme) (.expression f.expr) ∧ f.names = f.expr.gather .none := by
  obtain ⟨tokens, scanned, derives, names⟩ := Formula.parse_eq_ok_iff.mp h
  obtain ⟨inner, q, rfl, crossed⟩ := scan_eq_ok_iff.mp scanned
  rw [kinds_of_scan scanned List.map_append] at derives
  exact ⟨inner, q, crossed, derives, names⟩

/-- In parentheses, with a spelling between them, two texts fall into the lexemes that they fall into on their
own. -/
theorem scans_joined {p q p' q' : Position} {inner others : List Token} {l : Lexeme}
    (left : Crosses p s.toList inner q) (right : Crosses p' t.toList others q') (spelled : Spells word.toList l) :
    Scans ("(" ++ s ++ ") " ++ word ++ " (" ++ t ++ ")").toList
      (.openParen :: (inner.map Token.lexeme ++ [.closeParen]) ++
        l :: .openParen :: (others.map Token.lexeme ++ [.closeParen])) := by
  have closes (rest : List Char) : ∀ c ∈ (')' :: rest).head?, Divides c := by
    rintro _ ⟨⟩
    exact ⟨rfl, by decide, by decide, by decide⟩
  have blank (rest : List Char) : ∀ c ∈ (' ' :: rest).head?, Divides c := by
    rintro _ ⟨⟩
    exact divides_of_isBlank rfl
  -- from the last character to the first
  have last : Scans [')'] [.closeParen] := scans_nil.lexeme ')' [] rfl fun _ => rfl
  have second := (right.scans_append (closes []) last).lexeme '(' [] rfl fun _ => rfl
  have operator := (second.blank ' ' rfl).longest (.of_divides spelled (blank _))
  have close := (operator.blank ' ' rfl).lexeme ')' [] rfl fun _ => rfl
  have first := (left.scans_append (closes _) close).lexeme '(' [] rfl fun _ => rfl
  have text : ("(" ++ s ++ ") " ++ word ++ " (" ++ t ++ ")").toList =
      '(' :: (s.toList ++ ')' :: ' ' :: (word.toList ++ ' ' :: '(' :: (t.toList ++ [')']))) := by
    simp
  rw [text]
  simpa using first

/-- Two expressions in parentheses, with an operator between them, are the expression that the operator makes of
the two. -/
theorem Derives.joined {ls ms : List Lexeme} {e e' : Expr} (left : Derives ls (.expression e))
    (right : Derives ms (.expression e')) (op : Operator) :
    Derives (.openParen :: (ls ++ [.closeParen]) ++ op.lexeme :: .openParen :: (ms ++ [.closeParen]))
      (.expression (op.join e e')) := by
  have first : Derives _ (.chain op.level e) :=
    (binds_of_operand (.group left)).1 op.level (Nat.le_of_lt op.level.rank_lt)
  have second : Derives _ (op.level.part e') := (binds_of_operand (.group right)).part op.level.rank_lt
  exact (binds_of_chain (first.chain_snoc rfl second)).1 .expression (by cases op.level <;> decide)

/-- **Expressions are joined as operands.** Two texts that are read, each in parentheses and with any spelling of
an operator between them, are read as the operator over the two expressions, with the names of both. -/
theorem parse_joined (left : Formula.parse s = .ok f) (right : Formula.parse t = .ok g) (op : Operator) :
    Spells op.symbol.toList op.lexeme ∧ ∀ word : String, Spells word.toList op.lexeme →
      ∃ names, Formula.parse ("(" ++ s ++ ") " ++ word ++ " (" ++ t ++ ")") =
          .ok ⟨op.join f.expr g.expr, names⟩ ∧
        (∀ path, path ∈ names.fields ↔ path ∈ f.names.fields ∨ path ∈ g.names.fields) ∧
        ∀ function, function ∈ names.functions ↔ function ∈ f.names.functions ∨ function ∈ g.names.functions := by
  refine ⟨op.spells_symbol, fun word spelled => ?_⟩
  obtain ⟨inner, q, crossed, derives, names⟩ := crosses_of_parse left
  obtain ⟨others, q', crossed', derives', names'⟩ := crosses_of_parse right
  obtain ⟨tokens, scanned, lexemes⟩ := scans_joined crossed crossed' spelled .origin
  have whole := derives.joined derives' op
  rw [← kinds_of_scan scanned lexemes] at whole
  refine ⟨(op.join f.expr g.expr).gather .none, Formula.parse_eq_ok_iff.mpr ⟨tokens, scanned, whole, rfl⟩,
    fun path => ?_, fun function => ?_⟩
  · rw [gather_join, Expr.mem_gather_fields, ← names, names', Expr.mem_fields_gathered]
  · rw [gather_join, Expr.mem_gather_functions, ← names, names', Expr.mem_functions_gathered]

/-- An `or` stays on its side, and a quoted parenthesis closes nothing. -/
theorem parse_joined_disjunction :
    let f : Formula := ⟨.connect .or (.field "a") (.field "b"), .ofList ["a", "b"], .empty⟩
    let g : Formula := ⟨.compare .equal (.field "x") (.literal (.string ")")), .ofList ["x"], .empty⟩
    Formula.parse "a or b" = .ok f ∧ Formula.parse "x == ')'" = .ok g ∧
      ∃ names, Formula.parse "(a or b) && (x == ')')" = .ok ⟨.connect .and f.expr g.expr, names⟩ ∧
        "b" ∈ names.fields ∧ "x" ∈ names.fields := by
  intro f g
  have left : Formula.parse "a or b" = .ok f := by cbv
  have right : Formula.parse "x == ')'" = .ok g := by cbv
  obtain ⟨_, joined⟩ := parse_joined left right (.connective .and)
  obtain ⟨names, parsed, fields, _⟩ := joined "&&" .and
  exact ⟨left, right, names, parsed, (fields "b").mpr (.inl (by decide)), (fields "x").mpr (.inr (by decide))⟩

end

/-! ### Lexemes that are moved apart -/

/-- The text has nothing but blanks in it. -/
def Blank (text : String) : Prop := ∀ c ∈ text.toList, Text.isBlank c = true

theorem blank_empty : Blank "" := by simp [Blank]

theorem blank_singleton {c : Char} (h : Text.isBlank c = true) : Blank (String.singleton c) := by
  simpa [Blank] using h

/-- The texts stand in a row, with blanks between any two of them, and perhaps some in front and behind. -/
inductive Spaced : List String → String → Prop where
  | none {blanks} : Blank blanks → Spaced [] blanks
  | one {front text behind} : Blank front → Blank behind → Spaced [text] (front ++ text ++ behind)
  | more {front text gap texts rest} : Blank front → Blank gap → gap ≠ "" → Spaced texts rest →
      Spaced (text :: texts) (front ++ text ++ gap ++ rest)

section
variable {source respaced : String} {inner tokens others : List Token} {finish : Token} {texts : List String}
  {ls : List Lexeme} {limit : Option Nat}

/-- The texts at the places of tokens spell their lexemes. -/
theorem Lexed.spelled (h : Lexed source inner)
    (slices : List.Forall₂ (fun token text => token.span.Holds source text) inner texts) :
    List.Forall₂ (fun text l => Spells text.toList l) texts (inner.map Token.lexeme) := by
  have each : ∀ token ∈ inner, ∀ text, token.span.Holds source text → Spells text.toList token.lexeme := by
    intro token mem text holds
    obtain ⟨before, chars, after, heq, start, stop, taken⟩ := h.longest token mem
    rw [holds.toList_eq heq start stop]
    exact taken.spells
  clear h
  induction slices with
  | nil => exact .nil
  | @cons token text _ _ holds _ ih =>
    obtain ⟨first, others⟩ := List.forall_mem_cons.mp each
    exact .cons (first text holds) (ih others)

theorem Scans.spaced {front text cs : List Char} {l : Lexeme} (h : Scans cs ls) (spells : Spells text l)
    (divided : ∀ c ∈ cs.head?, Divides c) (blank : ∀ c ∈ front, Text.isBlank c = true) :
    Scans (front ++ (text ++ cs)) (l :: ls) :=
  (h.longest (.of_divides spells divided)).blanks blank

/-- Spellings with blanks between them are scanned as what they spell. -/
theorem Spaced.scans (h : Spaced texts respaced)
    (spelled : List.Forall₂ (fun text l => Spells text.toList l) texts ls) :
    Scans respaced.toList ls := by
  induction h generalizing ls with
  | none blank =>
    cases spelled
    have nothing := scans_nil.blanks blank
    rwa [List.append_nil] at nothing
  | one blank blank' =>
    obtain ⟨l, _, spells, nothing, rfl⟩ := List.forall₂_cons_left_iff.mp spelled
    cases nothing
    have behind := scans_nil.blanks blank'
    rw [List.append_nil] at behind
    rw [String.toList_append, String.toList_append, List.append_assoc]
    exact behind.spaced spells (fun c first => divides_of_isBlank (blank' c (List.mem_of_mem_head? first))) blank
  | @more front text gap texts rest blank blank' apart _ ih =>
    obtain ⟨l, others, spells, spelled', rfl⟩ := List.forall₂_cons_left_iff.mp spelled
    have behind : Scans (gap.toList ++ rest.toList) others := (ih spelled').blanks blank'
    rw [String.toList_append, String.toList_append, String.toList_append, List.append_assoc, List.append_assoc]
    refine behind.spaced spells (fun c first => divides_of_isBlank (blank' c ?_)) blank
    have solid : gap.toList ≠ [] := fun nothing => apart (String.toList_eq_nil_iff.mp nothing)
    rw [List.head?_append_of_ne_nil _ solid] at first
    exact List.mem_of_mem_head? first

/-- Where tokens stand only matters to where a fault is found. -/
theorem Parse.fault_conclude (limit : Option Nat) (span span' : Span) (s : State)
    (same : tokens.map Token.lexeme = others.map Token.lexeme) :
    (conclude limit span s tokens).mapError SyntaxError.fault =
      (conclude limit span' s others).mapError SyntaxError.fault := by
  induction tokens generalizing s others with
  | nil =>
    rw [List.map_eq_nil_iff.mp same.symm]
    show (located span (s.finish limit)).mapError SyntaxError.fault =
      (located span' (s.finish limit)).mapError SyntaxError.fault
    cases s.finish limit <;> rfl
  | cons token tokens ih =>
    obtain ⟨other, others, rfl, lexeme, more⟩ := List.map_eq_cons_iff.mp same.symm
    cases step : s.step limit token.lexeme with
    | ok next =>
      rw [conclude_of_step step, conclude_of_step (lexeme ▸ step)]
      exact ih next more.symm
    | error fault =>
      rw [conclude_of_fault step, conclude_of_fault (lexeme ▸ step)]
      rfl

/-- Tokens with the same lexemes are read alike, but for the places of faults. -/
theorem Formula.fault_ofTokens (same : tokens.map Token.lexeme = others.map Token.lexeme) (limit : Option Nat) :
    (ofTokens limit tokens).mapError SyntaxError.fault = (ofTokens limit others).mapError SyntaxError.fault := by
  have read : Parse.kinds tokens = Parse.kinds others := by
    rw [kinds_eq_takeWhile, kinds_eq_takeWhile, same]
  exact Parse.fault_conclude limit _ _ .start read

/-- What has the same formula, or the same fault at some place. -/
theorem eq_of_mapError_fault {α : Type} {x y : Except SyntaxError α}
    (alike : x.mapError SyntaxError.fault = y.mapError SyntaxError.fault) :
    (∀ a, x = .ok a → y = .ok a) ∧ ∀ e, x = .error e → ∃ line column, y = .error ⟨e.fault, line, column⟩ := by
  cases x with
  | ok a =>
    cases y with
    | ok b =>
      cases alike
      exact ⟨fun _ => id, nofun⟩
    | error => cases alike
  | error e =>
    cases y with
    | ok => cases alike
    | error e' =>
      refine ⟨nofun, ?_⟩
      rintro _ ⟨⟩
      exact ⟨e'.line, e'.column, congrArg _ (by rw [Except.error.inj alike])⟩

/-- **Blanks between lexemes.** If the lexemes of a text that is scanned are written in their order, with blanks
between any two of them, they are scanned as the same lexemes. What was read is then read as the same formula, and
so has the same answers; what was not read has the same fault, and only its place may differ. -/
theorem parse_spaced (scanned : Token.scan source = .ok (inner ++ [finish]))
    (slices : List.Forall₂ (fun token text => token.span.Holds source text) inner texts)
    (spaced : Spaced texts respaced) :
    (∃ tokens, Token.scan respaced = .ok tokens ∧
      tokens.map Token.lexeme = (inner ++ [finish]).map Token.lexeme) ∧
    (∀ limit formula, Formula.parseWithin limit source = .ok formula →
      Formula.parseWithin limit respaced = .ok formula) ∧
    (∀ limit e, Formula.parseWithin limit source = .error e → ∃ line column,
      Formula.parseWithin limit respaced = .error ⟨e.fault, line, column⟩) ∧
    ∀ formula change guard, Formula.parse source = .ok formula →
      evaluate respaced change guard = evaluate source change guard := by
  have here : Position.origin.offset = String.utf8Len [] := rfl
  obtain ⟨front, last, split, isFinish, -, -, placed⟩ := placed_of_scanFrom scanned here
  obtain ⟨rfl, same⟩ := List.append_inj' split rfl
  cases same
  obtain ⟨tokens, scanned', lexemes⟩ := spaced.scans (placed.lexed.spelled slices) .origin
  have same : tokens.map Token.lexeme = (inner ++ [finish]).map Token.lexeme := by
    rw [lexemes, List.map_append, List.map_singleton, isFinish]
  have alike (limit : Option Nat) : (Formula.parseWithin limit source).mapError SyntaxError.fault =
      (Formula.parseWithin limit respaced).mapError SyntaxError.fault := by
    rw [Formula.parseWithin_of_scan scanned, Formula.parseWithin_of_scan scanned']
    exact Formula.fault_ofTokens same.symm limit
  refine ⟨⟨tokens, scanned', same⟩, fun limit => (eq_of_mapError_fault (alike limit)).1,
    fun limit => (eq_of_mapError_fault (alike limit)).2, fun formula change guard read => ?_⟩
  have again : Formula.parse respaced = .ok formula := (eq_of_mapError_fault (alike none)).1 formula read
  rw [evaluate, evaluate, read, again]

/-- What tells `>=` and `-1` apart from shorter lexemes is gone, and a line begins between them. -/
theorem parse_spaced_comparison :
    let inner : List Token := [⟨.name "a", 0, 1, 1, 1⟩, ⟨.comparison .greaterOrEqual, 1, 3, 1, 2⟩,
      ⟨.number "-1", 3, 5, 1, 4⟩]
    Token.scan "a>=-1" = .ok (inner ++ [⟨.finish, 5, 5, 1, 6⟩]) ∧ Spaced ["a", ">=", "-1"] "\ta\u2003>=\n-1" ∧
      ∃ tokens, Token.scan "\ta\u2003>=\n-1" = .ok tokens ∧
        tokens.map Token.lexeme = [.name "a", .comparison .greaterOrEqual, .number "-1", .finish] := by
  intro inner
  have scanned : Token.scan "a>=-1" = .ok (inner ++ [⟨.finish, 5, 5, 1, 6⟩]) := by cbv
  have slices : List.Forall₂ (fun token text => token.span.Holds "a>=-1" text) inner ["a", ">=", "-1"] := by
    refine .cons ⟨"", ">=-1", ?_, ?_, ?_⟩ (.cons ⟨"a", "-1", ?_, ?_, ?_⟩ (.cons ⟨"a>=", "", ?_, ?_, ?_⟩ .nil)) <;> rfl
  have last : Spaced ["-1"] ("" ++ "-1" ++ "") := .one blank_empty blank_empty
  have behind : Spaced [">=", "-1"] ("" ++ ">=" ++ "\n" ++ ("" ++ "-1" ++ "")) :=
    .more blank_empty (@blank_singleton '\n' rfl) (by decide) last
  have spaced : Spaced ["a", ">=", "-1"] "\ta\u2003>=\n-1" :=
    .more (@blank_singleton '\t' rfl) (@blank_singleton '\u2003' rfl) (by decide) behind
  obtain ⟨again, _⟩ := parse_spaced scanned slices spaced
  exact ⟨scanned, spaced, again⟩

end
end RecordRules
