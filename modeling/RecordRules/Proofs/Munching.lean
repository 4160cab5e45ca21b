/-
# A text is cut into its longest lexemes

A text is scanned exactly if it can be read from left to right, a blank or the longest
lexeme at each place (`Munched`). The scanner then loses nothing: its tokens stand one
behind the other, each at the bytes of the characters that spell it, what lies between
them is blank, and `finish` stands at the end of the text (`Lexed`).

One induction over the scan says where tokens stand (`placed_of_scanFrom`). It is relative to the
characters before the place, so that the offset of a place is their length in bytes; the
facts about tokens are then inductions over `Placed` and know nothing of the scanner.

Key definitions: `Munched`, `Span.Holds`, `Lexed`, `Placed`. Key theorems: `placed_of_scanFrom`,
`scanFrom_of_munched`, `scan_munches`.
-/
import RecordRules.Proofs.Spelling

namespace RecordRules

open String (utf8Len)

/-- The characters are a blank or the longest lexeme at each place, from left to right. -/
inductive Munched : List Char → Prop where
  | nil : Munched []
  | blank {c rest} : Text.isBlank c = true → Munched rest → Munched (c :: rest)
  | lexeme {text l rest} : Longest text l rest → Munched rest → Munched (text ++ rest)

/-- The bytes of the source from the start of the span to its end are those of the text. -/
def Span.Holds (span : Span) (source text : String) : Prop :=
  ∃ before after : String, source = before ++ text ++ after ∧
    span.start = before.utf8ByteSize ∧ span.stop = (before ++ text).utf8ByteSize

/-- The tokens are what the text consists of, blanks aside. -/
structure Lexed (source : String) (tokens : List Token) : Prop where
  /-- Each token is the longest lexeme at its place, and is spelled by the characters there. -/
  longest : ∀ token ∈ tokens, ∃ before text after, source.toList = before ++ (text ++ after) ∧
    token.span.start = utf8Len before ∧ token.span.stop = utf8Len (before ++ text) ∧
    Longest text token.lexeme after
  /-- No token is empty. -/
  nonempty : ∀ token ∈ tokens, token.span.start < token.span.stop
  /-- Each token ends before the ones behind it start. -/
  ascending : tokens.Pairwise fun token later => token.span.stop ≤ later.span.start
  /-- A character outside all tokens is blank. -/
  blank : ∀ before c after, source.toList = before ++ c :: after →
    (∀ token ∈ tokens, utf8Len before < token.span.start ∨ token.span.stop ≤ utf8Len before) →
    Text.isBlank c = true
  /-- A name is the text at its place. -/
  name : ∀ token ∈ tokens, ∀ path, token.lexeme = .name path → token.span.Holds source path
  /-- A number is the text at its place. -/
  number : ∀ token ∈ tokens, ∀ digits, token.lexeme = .number digits → token.span.Holds source digits
  /-- A string is what stands between the quotes at its place. -/
  string : ∀ token ∈ tokens, ∀ s, token.lexeme = .string s → ∃ quote cs,
    (quote = '"' ∨ quote = '\'') ∧ token.span.Holds source (String.ofList (quote :: (cs ++ [quote]))) ∧
      Quoted quote cs s.toList
  /-- A reserved word is known in any case. -/
  keyword : ∀ token ∈ tokens, ∀ word l, token.span.Holds source word → Reserved (lowered word.toList) l →
    token.lexeme = l

/-! ### Blanks -/

theorem not_blank_of_spells {c : Char} {text : List Char} {l : Lexeme} (h : Spells (c :: text) l) :
    Text.isBlank c = false := by
  cases h with
  | string isQuote => rcases isQuote with rfl | rfl <;> rfl
  | number number =>
    rcases number.start with digit | ⟨rfl, _⟩
    · obtain ⟨low, high⟩ := toNat_of_isDigit digit
      exact not_blank (by omega) (by omega)
    · rfl
  | keyword word | name word =>
    obtain ⟨low, high⟩ := toNat_of_isNameStart (isNameStart_iff.mpr word.start)
    exact not_blank (by omega) (by omega)
  | _ => rfl

/-! ### Scanning -/

namespace Position

theorem offset_pastBlank (p : Position) (c : Char) : (p.pastBlank c).offset = p.offset + c.utf8Size := by
  unfold pastBlank
  split <;> rfl

theorem offset_pastLexeme (p : Position) (cs : List Char) :
    (p.pastLexeme cs).offset = p.offset + utf8Len cs := by
  suffices ∀ offset, cs.foldl (fun offset c => offset + c.utf8Size) offset = offset + utf8Len cs from
    this p.offset
  induction cs with
  | nil => exact fun _ => rfl
  | cons c cs ih =>
    intro offset
    rw [List.foldl_cons, ih, String.utf8Len_cons]
    omega

end Position

/-- What can be read from left to right is scanned, wherever it stands. -/
theorem scanFrom_of_munched {cs : List Char} (h : Munched cs) :
    ∀ p, ∃ tokens, Token.scanFrom p cs = .ok tokens := by
  induction h with
  | nil => exact fun p => ⟨_, Token.scanFrom.eq_1 p⟩
  | blank isBlank _ ih =>
    intro p
    rw [Token.scanFrom, if_pos isBlank]
    exact ih _
  | @lexeme text l rest taken _ ih =>
    intro p
    cases text with
    | nil => exact absurd rfl taken.spells.ne_nil
    | cons c text =>
      have solid := not_blank_of_spells taken.spells
      obtain ⟨tokens, scanned⟩ := ih (p.pastLexeme (c :: text))
      rw [List.cons_append, Token.scanFrom, if_neg (by simp [solid]), taken.first]
      simp only [List.take_left, List.drop_left, scanned]
      exact ⟨_, rfl⟩

/-- The tokens of the characters behind those before them, in their places. -/
inductive Placed : List Char → List Char → List Token → Prop where
  | nil {before} : Placed before [] []
  | blank {before c rest tokens} : Text.isBlank c = true → Placed (before ++ [c]) rest tokens →
      Placed before (c :: rest) tokens
  | lexeme {before text rest token tokens} : Longest text token.lexeme rest →
      token.span.start = utf8Len before → token.span.stop = utf8Len (before ++ text) →
      Placed (before ++ text) rest tokens → Placed before (text ++ rest) (token :: tokens)

/-- **Places.** What is scanned are tokens in their places, and `finish` behind all characters. -/
theorem placed_of_scanFrom {p : Position} {before cs : List Char} {tokens : List Token}
    (h : Token.scanFrom p cs = .ok tokens) (here : p.offset = utf8Len before) :
    ∃ inner finish, tokens = inner ++ [finish] ∧ finish.lexeme = .finish ∧
      finish.span.start = utf8Len (before ++ cs) ∧ finish.span.stop = utf8Len (before ++ cs) ∧
      Placed before cs inner := by
  fun_induction Token.scanFrom p cs generalizing before tokens with
  | case1 p =>
    cases h
    rw [List.append_nil]
    exact ⟨[], _, rfl, rfl, here, here, .nil⟩
  | case2 p c rest isBlank ih =>
    have next : (p.pastBlank c).offset = utf8Len (before ++ [c]) := by
      rw [Position.offset_pastBlank, here]
      simp
    obtain ⟨inner, finish, split, last, start, stop, placed⟩ := ih h next
    rw [List.append_assoc, List.singleton_append] at start stop
    exact ⟨inner, finish, split, last, start, stop, .blank isBlank placed⟩
  | case3 | case4 => cases h
  | case5 p c rest solid lexeme used first next more scanned =>
    rename_i ih
    cases h
    obtain ⟨text, behind, rfl, rfl, longest⟩ := Lexeme.longest_of_first first
    have there : next.offset = utf8Len (before ++ (c :: text)) := by
      have width := Position.offset_pastLexeme p (c :: text)
      simp only [next, List.take_left, width, here, String.utf8Len_append]
    rw [List.drop_left] at scanned ih
    obtain ⟨inner, finish, split, last, start, stop, placed⟩ := ih scanned there
    rw [List.append_assoc, List.cons_append] at start stop
    refine ⟨⟨lexeme, p.offset, next.offset, p.line, p.column⟩ :: inner, finish, ?_, last, start, stop,
      .lexeme longest here there placed⟩
    rw [split, List.cons_append]

/-! ### Tokens in their places -/

namespace Placed

variable {before cs : List Char} {tokens : List Token}

theorem munched (h : Placed before cs tokens) : Munched cs := by
  induction h with
  | nil => exact .nil
  | blank isBlank _ ih => exact .blank isBlank ih
  | lexeme taken _ _ _ ih => exact .lexeme taken ih

theorem longest (h : Placed before cs tokens) : ∀ token ∈ tokens, ∃ between text after,
    cs = between ++ (text ++ after) ∧ token.span.start = utf8Len (before ++ between) ∧
      token.span.stop = utf8Len (before ++ between ++ text) ∧ Longest text token.lexeme after := by
  induction h with
  | nil => simp
  | @blank before c rest tokens _ _ ih =>
    intro token mem
    obtain ⟨between, text, after, rfl, start, stop, longest⟩ := ih token mem
    rw [← List.append_cons] at start stop
    exact ⟨c :: between, text, after, rfl, start, stop, longest⟩
  | @lexeme before text rest first tokens taken start stop _ ih =>
    intro token mem
    rcases List.mem_cons.mp mem with rfl | mem
    · rw [← List.append_nil before] at start stop
      exact ⟨[], text, rest, rfl, start, stop, taken⟩
    · obtain ⟨between, text', after, rfl, start, stop, longest⟩ := ih token mem
      rw [List.append_assoc before] at start stop
      exact ⟨text ++ between, text', after, (List.append_assoc ..).symm, start, stop, longest⟩

/-- No token begins before the characters do. -/
theorem le_start (h : Placed before cs tokens) : ∀ token ∈ tokens, utf8Len before ≤ token.span.start := by
  intro token mem
  obtain ⟨between, _, _, _, start, _⟩ := h.longest token mem
  rw [start, String.utf8Len_append]
  exact Nat.le_add_right _ _

theorem nonempty (h : Placed before cs tokens) : ∀ token ∈ tokens, token.span.start < token.span.stop := by
  intro token mem
  obtain ⟨between, text, _, _, start, stop, longest⟩ := h.longest token mem
  have positive : utf8Len text ≠ 0 := fun zero => longest.spells.ne_nil (String.utf8Len_eq_zero.mp zero)
  rw [start, stop, String.utf8Len_append (before ++ between)]
  omega

theorem ascending (h : Placed before cs tokens) :
    tokens.Pairwise fun token later => token.span.stop ≤ later.span.start := by
  induction h with
  | nil => exact .nil
  | blank _ _ ih => exact ih
  | lexeme _ _ stop placed ih =>
    refine .cons (fun later mem => ?_) ih
    rw [stop]
    exact placed.le_start later mem

/-- What no token covers is blank. -/
theorem isBlank_of_outside (h : Placed before cs tokens) : ∀ between c after, cs = between ++ c :: after →
    (∀ token ∈ tokens, utf8Len (before ++ between) < token.span.start ∨
      token.span.stop ≤ utf8Len (before ++ between)) → Text.isBlank c = true := by
  induction h with
  | nil => exact fun between c after heq => absurd heq.symm (by simp)
  | @blank before d rest tokens isBlank _ ih =>
    intro between c after heq outside
    cases between with
    | nil =>
      cases heq
      exact isBlank
    | cons _ between =>
      cases heq
      rw [List.append_cons] at outside
      exact ih between c after rfl outside
  | @lexeme before text rest token tokens _ start stop _ ih =>
    intro between c after heq outside
    rcases List.append_eq_append_iff.mp heq with ⟨behind, rfl, rfl⟩ | ⟨within, rfl, split⟩
    · rw [← List.append_assoc] at outside
      exact ih behind c after rfl fun token mem => outside token (.tail _ mem)
    · cases within with
      | nil =>
        refine ih [] c after split.symm fun other mem => ?_
        simpa using outside other (.tail _ mem)
      | cons d within =>
        -- the character is one of the first token's
        have width := Char.utf8Size_pos d
        have covered := outside token (.head _)
        simp only [start, stop, String.utf8Len_append, String.utf8Len_cons] at covered
        omega

end Placed

/-! ### What spells a lexeme -/

section
variable {text word : List Char} {l : Lexeme}

/-- A reserved word stands for itself: no payload goes with it. -/
theorem Reserved.plain {word : String} (h : Reserved word l) : (∀ path, l ≠ .name path) ∧
    (∀ digits, l ≠ .number digits) ∧ (∀ s, l ≠ .string s) ∧ l ≠ .finish := by
  cases h <;> simp

theorem Spells.ne_finish (h : Spells text l) : l ≠ .finish := by
  cases h with
  | keyword _ reserved => exact reserved.plain.2.2.2
  | _ => nofun

theorem Spells.name_eq {path : String} (h : Spells text (.name path)) : path = String.ofList text := by
  cases h with
  | keyword _ reserved => exact absurd rfl (reserved.plain.1 path)
  | name => rfl

theorem Spells.number_eq {digits : String} (h : Spells text (.number digits)) :
    digits = String.ofList text := by
  cases h with
  | number => rfl
  | keyword _ reserved => exact absurd rfl (reserved.plain.2.1 digits)

theorem Spells.quoted {s : String} (h : Spells text (.string s)) : ∃ quote cs,
    (quote = '"' ∨ quote = '\'') ∧ text = quote :: (cs ++ [quote]) ∧ Quoted quote cs s.toList := by
  cases h with
  | @string quote cs body isQuote quoted =>
    refine ⟨quote, cs, isQuote, rfl, ?_⟩
    rw [String.toList_ofList]
    exact quoted
  | keyword _ reserved => exact absurd rfl (reserved.plain.2.2.1 s)

theorem isAlpha_of_isLower_toLower {c : Char} (h : c.toLower.isLower = true) : c.isAlpha = true := by
  by_cases upper : c.isUpper = true
  · rw [Char.isAlpha, upper, Bool.true_or]
  · have same : c.toLower = c := dif_neg fun range => upper (decide_eq_true range)
    rw [same] at h
    rw [Char.isAlpha, h, Bool.or_true]

theorem isLower_of_reserved {word : String} (h : Reserved word l) : ∀ c ∈ word.toList, c.isLower = true := by
  have all : word.toList.all Char.isLower = true := by cases h <;> rfl
  exact List.all_eq_true.mp all

/-- Only letters have small letters for their lower case. -/
theorem isWord_of_reserved (h : Reserved (lowered word) l) :
    ∃ first rest, word = first :: rest ∧ IsWord first rest := by
  have alpha : ∀ c ∈ word, c.isAlpha = true := by
    intro c mem
    refine isAlpha_of_isLower_toLower (isLower_of_reserved h _ ?_)
    rw [lowered, String.toList_ofList]
    exact List.mem_map_of_mem mem
  cases word with
  | nil =>
    have none : keywords.lookup (lowered []) = none := rfl
    cases none.symm.trans (reserved_iff.mp h)
  | cons first rest =>
    refine ⟨first, rest, rfl, .inl (alpha first (.head _)), fun c mem => .inl ?_⟩
    rw [Char.isAlphanum, alpha c (.tail _ mem), Bool.true_or]

end

/-! ### Bytes of a text -/

theorem Span.holds_of_toList {span : Span} {source : String} {before text after : List Char}
    (heq : source.toList = before ++ (text ++ after)) (start : span.start = utf8Len before)
    (stop : span.stop = utf8Len (before ++ text)) : span.Holds source (String.ofList text) := by
  refine ⟨String.ofList before, String.ofList after, ?_, ?_, ?_⟩
  · apply String.toList_injective
    simpa using heq
  · rw [start, String.utf8ByteSize_ofList]
  · rw [stop, ← String.ofList_append, String.utf8ByteSize_ofList]

theorem append_inj_of_utf8Len {a b c d : List Char} (heq : a ++ b = c ++ d) (width : utf8Len a = utf8Len c) :
    a = c ∧ b = d := by
  rcases List.append_eq_append_iff.mp heq with ⟨more, rfl, rfl⟩ | ⟨more, rfl, rfl⟩
  all_goals
    rw [String.utf8Len_append] at width
    have none : more = [] := String.utf8Len_eq_zero.mp (by omega)
    simp [none]

/-- The bytes of a span are those of one text only. -/
theorem Span.Holds.toList_eq {span : Span} {source word : String} {before text after : List Char}
    (h : span.Holds source word) (heq : source.toList = before ++ (text ++ after))
    (start : span.start = utf8Len before) (stop : span.stop = utf8Len (before ++ text)) :
    word.toList = text := by
  obtain ⟨front, back, rfl, start', stop'⟩ := h
  rw [String.toList_append, String.toList_append, List.append_assoc] at heq
  rw [String.utf8ByteSize_append, ← String.utf8Len_toList, ← String.utf8Len_toList] at stop'
  rw [← String.utf8Len_toList] at start'
  obtain ⟨-, behind⟩ := append_inj_of_utf8Len heq (by omega)
  rw [String.utf8Len_append] at stop
  exact (append_inj_of_utf8Len behind (by omega)).1

/-! ### Texts -/

/-- What stands in its place in a text is what the text consists of. -/
theorem Placed.lexed {source : String} {tokens : List Token} (h : Placed [] source.toList tokens) :
    Lexed source tokens where
  longest := h.longest
  nonempty := h.nonempty
  ascending := h.ascending
  blank := h.isBlank_of_outside
  name := by
    intro token mem path isName
    obtain ⟨before, text, after, heq, start, stop, taken⟩ := h.longest token mem
    rw [isName] at taken
    rw [taken.spells.name_eq]
    exact Span.holds_of_toList heq start stop
  number := by
    intro token mem digits isNumber
    obtain ⟨before, text, after, heq, start, stop, taken⟩ := h.longest token mem
    rw [isNumber] at taken
    rw [taken.spells.number_eq]
    exact Span.holds_of_toList heq start stop
  string := by
    intro token mem s isString
    obtain ⟨before, text, after, heq, start, stop, taken⟩ := h.longest token mem
    rw [isString] at taken
    obtain ⟨quote, cs, isQuote, rfl, quoted⟩ := taken.spells.quoted
    exact ⟨quote, cs, isQuote, Span.holds_of_toList heq start stop, quoted⟩
  keyword := by
    intro token mem word l holds reserved
    obtain ⟨before, text, after, heq, start, stop, taken⟩ := h.longest token mem
    rw [holds.toList_eq heq start stop] at reserved
    obtain ⟨first, rest, rfl, isWord⟩ := isWord_of_reserved reserved
    exact (taken.lexeme_eq (.keyword isWord reserved)).symm

/-- **A text is cut into its longest lexemes.** A text is scanned exactly if it can be read from left to
right as blanks and longest lexemes. What is scanned are then those lexemes, each at its bytes, and the one
token `finish` behind them, which is empty and stands at the end of the text. -/
theorem scan_munches (source : String) :
    ((∃ tokens, Token.scan source = .ok tokens) ↔ Munched source.toList) ∧
    ∀ tokens, Token.scan source = .ok tokens → ∃ inner finish, tokens = inner ++ [finish] ∧
      finish.lexeme = .finish ∧ finish.span.start = source.utf8ByteSize ∧
      finish.span.stop = source.utf8ByteSize ∧ (∀ token ∈ inner, token.lexeme ≠ .finish) ∧
      Lexed source inner := by
  have here : Position.origin.offset = utf8Len [] := rfl
  have placed {tokens : List Token} (scanned : Token.scan source = .ok tokens) :=
    placed_of_scanFrom scanned here
  refine ⟨⟨?_, fun munched => scanFrom_of_munched munched .origin⟩, ?_⟩
  · rintro ⟨tokens, scanned⟩
    obtain ⟨_, _, _, _, _, _, inPlace⟩ := placed scanned
    exact inPlace.munched
  · intro tokens scanned
    obtain ⟨inner, finish, split, last, start, stop, inPlace⟩ := placed scanned
    rw [List.nil_append, String.utf8Len_toList] at start stop
    refine ⟨inner, finish, split, last, start, stop, ?_, inPlace.lexed⟩
    intro token mem
    obtain ⟨_, _, _, _, _, _, taken⟩ := inPlace.longest token mem
    exact taken.spells.ne_finish

/-- Of `>` and `>=` the longer is taken, the points of a run belong to it, and bytes are counted, not
characters. -/
theorem scan_munches_operator_run : ∃ inner finish,
    Token.scan "x>=-1.5.2 AnD 'é\\''" = .ok (inner ++ [finish]) ∧
      inner = [⟨.name "x", 0, 1, 1, 1⟩, ⟨.comparison .greaterOrEqual, 1, 3, 1, 2⟩,
        ⟨.number "-1.5.2", 3, 9, 1, 4⟩, ⟨.connective .and, 10, 13, 1, 11⟩, ⟨.string "é'", 14, 20, 1, 15⟩] ∧
      finish.span.stop = 20 ∧ Munched "x>=-1.5.2 AnD 'é\\''".toList ∧ Lexed "x>=-1.5.2 AnD 'é\\''" inner := by
  have scanned : Token.scan "x>=-1.5.2 AnD 'é\\''" = .ok [⟨.name "x", 0, 1, 1, 1⟩,
      ⟨.comparison .greaterOrEqual, 1, 3, 1, 2⟩, ⟨.number "-1.5.2", 3, 9, 1, 4⟩,
      ⟨.connective .and, 10, 13, 1, 11⟩, ⟨.string "é'", 14, 20, 1, 15⟩, ⟨.finish, 20, 20, 1, 20⟩] := by cbv
  obtain ⟨read, decomposed⟩ := scan_munches "x>=-1.5.2 AnD 'é\\''"
  obtain ⟨inner, finish, split, -, -, stop, -, lexed⟩ := decomposed _ scanned
  have tokens := congrArg List.dropLast split
  rw [List.dropLast_concat] at tokens
  exact ⟨inner, finish, split ▸ scanned, tokens.symm, stop, read.mp ⟨_, scanned⟩, lexed⟩

end RecordRules
