/-
# Lines and columns

The line of a place in a text is one more than the line feeds in front of it, and its
column is one more than the characters behind the last of them (`Position.behind`). The
scanner keeps both while it goes along. It goes over a blank as the rule says, a line feed
or not. It goes over a lexeme by its number of characters, as if no line feed could stand
in one, and in all lexemes but strings none can (`Spells.count_feeds`). So the line it
keeps falls behind by the line feeds in the strings so far, and the place is the right one
exactly if there are none (`Charted.place_eq_iff`). The same holds of the place at which a
text cannot be scanned.

`Crosses` is the scan as a relation that carries the place; the law of places is one
induction over it (`Crosses.charted`). Whether or not places are right, each token stands
strictly behind those in front of it (`Crosses.ordered`), so a line and a column name one
token of a text at most.

Key definitions: `Position.behind`, `feeds`, `Crosses`, `Charted`. Key theorems:
`scan_eq_ok_iff`, `Crosses.charted`, `place_right_iff`.
-/
import RecordRules.Proofs.Munching

namespace RecordRules

open String (utf8Len)

/-! ### Places in a text -/

namespace Position

/-- The place behind the characters with which a text begins. -/
def behind (before : List Char) : Position :=
  ⟨utf8Len before, 1 + before.count '\n', 1 + (before.reverse.takeWhile (· ≠ '\n')).length⟩

/-- Blanks move the place as they should. -/
theorem behind_blank (before : List Char) (c : Char) : behind (before ++ [c]) = (behind before).pastBlank c := by
  have width : utf8Len (before ++ [c]) = utf8Len before + c.utf8Size := by simp
  have reversed : (before ++ [c]).reverse = c :: before.reverse := by simp
  rw [behind, width, reversed, List.count_append, List.count_singleton, pastBlank]
  by_cases feed : c = '\n'
  · rw [if_pos feed, feed, List.takeWhile_cons_of_neg (by decide)]
    rfl
  · have solid : (c == '\n') = false := beq_false_of_ne feed
    have counts : decide (c ≠ '\n') = true := decide_eq_true feed
    rw [if_neg feed, solid, List.takeWhile_cons, if_pos counts]
    rfl

theorem takeWhile_reverse_append {text : List Char} (free : '\n' ∉ text) (before : List Char) :
    ((before ++ text).reverse.takeWhile (· ≠ '\n')).length =
      (before.reverse.takeWhile (· ≠ '\n')).length + text.length := by
  have all : ∀ c ∈ text.reverse, decide (c ≠ '\n') = true := by
    intro c mem
    refine decide_eq_true ?_
    rintro rfl
    exact free (List.mem_reverse.mp mem)
  rw [List.reverse_append, List.takeWhile_append_of_pos all, List.length_append, List.length_reverse, Nat.add_comm]

/-- Characters that are no line feeds move the place by their number. -/
theorem behind_text {text : List Char} (free : '\n' ∉ text) (before : List Char) :
    behind (before ++ text) = (behind before).pastLexeme text := by
  have offset := offset_pastLexeme (behind before) text
  have lines : (before ++ text).count '\n' = before.count '\n' := by
    rw [List.count_append, List.count_eq_zero_of_not_mem free, Nat.add_zero]
  have columns := takeWhile_reverse_append free before
  have width : utf8Len (before ++ text) = utf8Len before + utf8Len text := String.utf8Len_append before text
  rw [behind, lines, columns, width, ← Nat.add_assoc]
  rw [pastLexeme] at offset ⊢
  exact congrArg (Position.mk · _ _) offset.symm

end Position

/-! ### Line feeds in lexemes -/

/-- The line feeds in the string that the lexeme is. -/
def Lexeme.feeds : Lexeme → Nat
  | .string s => s.toList.count '\n'
  | _ => 0

/-- The line feeds in the strings among the tokens. -/
def feeds (tokens : List Token) : Nat := (tokens.map fun token => token.lexeme.feeds).sum

/-- No string among the tokens has a line feed in it. -/
def Unbroken (tokens : List Token) : Prop :=
  ∀ token ∈ tokens, ∀ s, token.lexeme = .string s → '\n' ∉ s.toList

theorem feeds_append (front tokens : List Token) : feeds (front ++ tokens) = feeds front + feeds tokens := by
  rw [feeds, List.map_append, List.sum_append, ← feeds, ← feeds]

theorem Lexeme.feeds_eq_zero_iff {l : Lexeme} : l.feeds = 0 ↔ ∀ s, l = .string s → '\n' ∉ s.toList := by
  cases l with
  | string s => simp [feeds, List.count_eq_zero]
  | _ => simp [feeds]

theorem feeds_eq_zero_iff {tokens : List Token} : feeds tokens = 0 ↔ Unbroken tokens := by
  rw [feeds, List.sum_eq_zero_iff, Unbroken, List.forall_mem_map]
  simp only [Lexeme.feeds_eq_zero_iff]

section
variable {quote c : Char} {cs text : List Char} {l : Lexeme}

/-- Quoting adds no line feed and takes none away. -/
theorem Quoted.count_feeds (h : Quoted quote cs text) : cs.count '\n' = text.count '\n' := by
  induction h with
  | nil => rfl
  | plain _ _ _ ih => rw [List.count_cons, List.count_cons, ih]
  | escaped _ ih =>
    rw [List.count_cons_of_ne (by decide), List.count_cons, List.count_cons, ih]

theorem not_feed_of_isNameChar (h : isNameChar c = true) : c ≠ '\n' := by
  rintro rfl
  exact absurd h (by decide)

theorem not_feed_of_isNumberChar (h : isNumberChar c = true) : c ≠ '\n' := by
  rintro rfl
  exact absurd h (by decide)

theorem IsWord.not_mem_feed {first : Char} {rest : List Char} (h : IsWord first rest) :
    '\n' ∉ first :: rest := by
  have start : first ≠ '\n' := by
    rintro rfl
    exact absurd h.start (by decide)
  rw [List.mem_cons, not_or]
  refine ⟨start.symm, fun mem => ?_⟩
  exact not_feed_of_isNameChar (isNameChar_iff.mpr (h.all _ mem)) rfl

theorem IsRun.not_mem_feed {first : Char} {rest : List Char} (h : IsRun first rest) :
    '\n' ∉ first :: rest := by
  have start : first ≠ '\n' := by
    rintro rfl
    exact absurd (h.start.imp_right And.left) (by decide)
  rw [List.mem_cons, not_or]
  exact ⟨start.symm, fun mem => not_feed_of_isNumberChar (h.all _ mem) rfl⟩

/-- **Line feeds are in strings.** A spelling has the line feeds of the string that it spells, and none if it
spells no string. -/
theorem Spells.count_feeds (h : Spells text l) : text.count '\n' = l.feeds := by
  cases h with
  | @string quote cs body isQuote quoted =>
    have noFeed : quote ≠ '\n' := by
      rintro rfl
      exact absurd isQuote (by decide)
    rw [Lexeme.feeds, String.toList_ofList, List.count_cons_of_ne noFeed, List.count_append, quoted.count_feeds,
      List.count_singleton, if_neg (by simpa using noFeed), Nat.add_zero]
  | number run => exact List.count_eq_zero_of_not_mem run.not_mem_feed
  | keyword word reserved =>
    have plain : l.feeds = 0 := Lexeme.feeds_eq_zero_iff.mpr fun s same => absurd same (reserved.plain.2.2.1 s)
    rw [plain]
    exact List.count_eq_zero_of_not_mem word.not_mem_feed
  | name word => exact List.count_eq_zero_of_not_mem word.not_mem_feed
  | _ => rfl

end

/-! ### Scanning with places -/

/-- The place at which the span starts. -/
def Span.place (span : Span) : Position := ⟨span.start, span.line, span.column⟩

/-- The token `finish` at a place. -/
def Token.finishAt (p : Position) : Token := ⟨.finish, p.offset, p.offset, p.line, p.column⟩

/-- From one place to another the characters are scanned as the tokens, each the longest lexeme at its
place. -/
inductive Crosses : Position → List Char → List Token → Position → Prop where
  | stay {p} : Crosses p [] [] p
  | blank {p q c cs tokens} : Text.isBlank c = true → Crosses (p.pastBlank c) cs tokens q →
      Crosses p (c :: cs) tokens q
  | lexeme {p q text l cs tokens} : Longest text l cs → Crosses (p.pastLexeme text) cs tokens q →
      Crosses p (text ++ cs) (⟨l, p.offset, (p.pastLexeme text).offset, p.line, p.column⟩ :: tokens) q

theorem Longest.of_append {text cs rest : List Char} {l : Lexeme} (h : Longest text l (cs ++ rest)) :
    Longest text l cs := by
  refine ⟨h.spells, fun other m spells starts => h.longest other m spells ?_⟩
  rw [← List.append_assoc]
  exact starts.trans (List.prefix_append _ rest)

/-- What is crossed is scanned. -/
theorem Crosses.scanFrom {p q : Position} {cs : List Char} {tokens : List Token} (h : Crosses p cs tokens q) :
    Token.scanFrom p cs = .ok (tokens ++ [.finishAt q]) := by
  induction h with
  | @stay p => exact Token.scanFrom.eq_1 p
  | blank isBlank _ ih => rw [Token.scanFrom, if_pos isBlank, ih]
  | @lexeme p q text l cs tokens taken _ ih =>
    cases text with
    | nil => exact absurd rfl taken.spells.ne_nil
    | cons c text =>
      have solid := not_blank_of_spells taken.spells
      rw [List.cons_append, Token.scanFrom, if_neg (by simp [solid]), taken.first]
      simp only [List.take_left, List.drop_left, ih, List.cons_append]

/-- The scan stops at the character: no lexeme begins there, or it is a quote without a partner. -/
def SyntaxFault.StopsAt (fault : SyntaxFault) (c : Char) (offset : Nat) : Prop :=
  fault = .unexpectedCharacter c offset ∨ (c = '"' ∨ c = '\'') ∧ fault = .unterminatedString offset

theorem stopsAt_of_first {offset : Nat} {c : Char} {rest : List Char} {fault : SyntaxFault}
    (h : Lexeme.first offset c rest = .error fault) : fault.StopsAt c offset := by
  have paired {second : Char} {l : Lexeme} (hp : pair offset c second l rest = .error fault) :
      fault.StopsAt c offset := by
    unfold pair at hp
    split at hp <;> cases hp
    exact .inl rfl
  unfold Lexeme.first at h
  split at h
  case h_1 | h_2 | h_3 | h_4 | h_5 => cases h
  case h_6 | h_7 | h_8 | h_9 => exact paired h
  case h_10 | h_11 => split at h <;> cases h
  case h_12 =>
    split at h
    · rename_i isQuote
      split at h <;> cases h
      exact .inr ⟨isQuote, rfl⟩
    split at h
    · cases h
    split at h
    · cases h
    · cases h
      exact .inl rfl

/-- **A scan crosses.** It goes over all characters, or over those in front of the one at which it stops. -/
theorem crosses_of_scanFrom (p : Position) (cs : List Char) :
    (∀ tokens, Token.scanFrom p cs = .ok tokens →
      ∃ inner q, tokens = inner ++ [.finishAt q] ∧ Crosses p cs inner q) ∧
    ∀ e, Token.scanFrom p cs = .error e → ∃ before c after inner q, cs = before ++ c :: after ∧
      Crosses p before inner q ∧ e.fault.StopsAt c q.offset ∧ e.line = q.line ∧ e.column = q.column := by
  fun_induction Token.scanFrom p cs with
  | case1 p =>
    refine ⟨?_, fun e h => (by cases h)⟩
    rintro _ ⟨⟩
    exact ⟨[], p, rfl, .stay⟩
  | case2 p c rest isBlank ih =>
    refine ⟨fun tokens h => ?_, fun e h => ?_⟩
    · obtain ⟨inner, q, split, crossed⟩ := ih.1 tokens h
      exact ⟨inner, q, split, .blank isBlank crossed⟩
    · obtain ⟨before, d, after, inner, q, rfl, crossed, stop⟩ := ih.2 e h
      exact ⟨c :: before, d, after, inner, q, rfl, .blank isBlank crossed, stop⟩
  | case3 p c rest solid fault first =>
    refine ⟨fun tokens h => (by cases h), ?_⟩
    rintro _ ⟨⟩
    exact ⟨[], c, rest, [], p, rfl, .stay, stopsAt_of_first first, rfl, rfl⟩
  | case4 p c rest solid lexeme used first next e scanned ih =>
    refine ⟨fun tokens h => (by cases h), ?_⟩
    rintro _ ⟨⟩
    obtain ⟨text, behind, rfl, rfl, longest⟩ := Lexeme.longest_of_first first
    rw [List.drop_left] at ih scanned
    have there : next = p.pastLexeme (c :: text) := by simp only [next, List.take_left]
    rw [there] at ih scanned
    obtain ⟨before, d, after, inner, q, rfl, crossed, stop⟩ := ih.2 e scanned
    exact ⟨c :: text ++ before, d, after, _, q, by simp, .lexeme longest.of_append crossed, stop⟩
  | case5 p c rest solid lexeme used first next more scanned ih =>
    refine ⟨?_, fun e h => (by cases h)⟩
    rintro _ ⟨⟩
    obtain ⟨text, behind, rfl, rfl, longest⟩ := Lexeme.longest_of_first first
    rw [List.drop_left] at ih scanned
    have there : next = p.pastLexeme (c :: text) := by simp only [next, List.take_left]
    rw [there] at ih scanned
    obtain ⟨inner, q, rfl, crossed⟩ := ih.1 more scanned
    rw [there]
    exact ⟨_, q, rfl, .lexeme longest crossed⟩

/-- A text is scanned exactly if all of it is crossed; `finish` is then where the scan has come to. -/
theorem scan_eq_ok_iff {source : String} {tokens : List Token} : Token.scan source = .ok tokens ↔
    ∃ inner q, tokens = inner ++ [.finishAt q] ∧ Crosses .origin source.toList inner q := by
  constructor
  · exact (crosses_of_scanFrom .origin source.toList).1 tokens
  · rintro ⟨inner, q, rfl, crossed⟩
    exact crossed.scanFrom

/-- Up to each token there is a scan of its own, which ends where the token starts. -/
theorem Crosses.upTo {p q : Position} {cs : List Char} {tokens front rest : List Token} {token : Token}
    (h : Crosses p cs tokens q) (split : tokens = front ++ token :: rest) :
    ∃ before after, cs = before ++ after ∧ Crosses p before front token.span.place := by
  induction h generalizing front with
  | stay => exact absurd split (by simp)
  | @blank _ _ c _ _ isBlank _ ih =>
    obtain ⟨before, after, rfl, crossed⟩ := ih split
    exact ⟨c :: before, after, rfl, .blank isBlank crossed⟩
  | @lexeme p q text l cs tokens taken _ ih =>
    cases front with
    | nil =>
      cases split
      exact ⟨[], _, rfl, .stay⟩
    | cons first front =>
      cases split
      obtain ⟨before, after, rfl, crossed⟩ := ih rfl
      exact ⟨text ++ before, after, (List.append_assoc ..).symm, .lexeme taken.of_append crossed⟩

/-- Up to `finish`, there is the whole scan. -/
theorem Crosses.reached {p q : Position} {cs : List Char} {tokens front rest : List Token} {token : Token}
    (h : Crosses p cs tokens q) (split : tokens ++ [.finishAt q] = front ++ token :: rest) :
    ∃ before after, cs = before ++ after ∧ Crosses p before front token.span.place := by
  rcases List.eq_nil_or_concat' rest with rfl | ⟨more, last, rfl⟩
  · obtain ⟨rfl, same⟩ := List.append_inj' split rfl
    cases same
    exact ⟨cs, [], (List.append_nil cs).symm, h⟩
  · rw [← List.cons_append, ← List.append_assoc] at split
    exact h.upTo (List.append_inj' split rfl).1

/-! ### The law of places -/

/-- What the scanner knows of its place behind the characters, with the tokens it has found in them: the line
falls behind by the line feeds in strings, and without any the place is the right one. -/
structure Charted (before : List Char) (front : List Token) (p : Position) : Prop where
  offset : p.offset = utf8Len before
  line : p.line + feeds front = 1 + before.count '\n'
  place : feeds front = 0 → p = .behind before

namespace Charted

variable {before text : List Char} {front : List Token} {p : Position} {c : Char}

theorem origin : Charted [] [] .origin := ⟨rfl, rfl, fun _ => rfl⟩

/-- **Right places.** The place is the right one exactly if no string in front of it has a line feed in it. -/
theorem place_eq_iff (h : Charted before front p) : p = .behind before ↔ Unbroken front := by
  rw [← feeds_eq_zero_iff]
  refine ⟨fun right => ?_, h.place⟩
  have line : 1 + before.count '\n' + feeds front = 1 + before.count '\n' := by
    rw [right] at h
    exact h.line
  omega

/-- A step over a blank. -/
theorem blank (h : Charted before front p) : Charted (before ++ [c]) front (p.pastBlank c) where
  offset := by
    rw [Position.offset_pastBlank, h.offset, String.utf8Len_append]
    simp
  line := by
    have line := h.line
    rw [List.count_append, List.count_singleton, Position.pastBlank]
    by_cases feed : c = '\n'
    · have found : (c == '\n') = true := beq_iff_eq.mpr feed
      rw [if_pos feed, found]
      show p.line + 1 + feeds front = 1 + (before.count '\n' + 1)
      omega
    · have solid : (c == '\n') = false := beq_false_of_ne feed
      rw [if_neg feed, solid]
      exact line
  place := by
    intro none
    rw [h.place none, Position.behind_blank]

/-- A step over a lexeme. -/
theorem lexeme (h : Charted before front p) (token : Token) (spells : Spells text token.lexeme) :
    Charted (before ++ text) (front ++ [token]) (p.pastLexeme text) where
  offset := by rw [Position.offset_pastLexeme, h.offset, String.utf8Len_append]
  line := by
    have line := h.line
    have own : feeds [token] = text.count '\n' := spells.count_feeds.symm
    rw [feeds_append, own, List.count_append]
    show p.line + _ = _
    omega
  place := by
    intro none
    have own : feeds [token] = text.count '\n' := spells.count_feeds.symm
    rw [feeds_append, own] at none
    have free : '\n' ∉ text := List.count_eq_zero.mp (by omega)
    rw [h.place (by omega), Position.behind_text free]

end Charted

/-- **The law of places.** A scan keeps what is known of its place. -/
theorem Crosses.charted {p q : Position} {before cs : List Char} {front tokens : List Token}
    (h : Crosses p cs tokens q) (here : Charted before front p) : Charted (before ++ cs) (front ++ tokens) q := by
  induction h generalizing before front with
  | stay =>
    rw [List.append_nil, List.append_nil]
    exact here
  | blank _ _ ih =>
    have there := ih here.blank
    rwa [List.append_assoc] at there
  | @lexeme p q text l cs tokens taken _ ih =>
    have there := ih (here.lexeme ⟨l, p.offset, (p.pastLexeme text).offset, p.line, p.column⟩ taken.spells)
    rwa [List.append_assoc, List.append_assoc] at there

theorem Crosses.charted_origin {q : Position} {cs : List Char} {tokens : List Token}
    (h : Crosses .origin cs tokens q) : Charted cs tokens q := h.charted .origin

/-! ### Reading order -/

namespace Position

/-- The place is in front of the other: on an earlier line, or earlier on its line. -/
def Before (p q : Position) : Prop := p.line < q.line ∨ p.line = q.line ∧ p.column < q.column

/-- The place is not behind the other. -/
def UpTo (p q : Position) : Prop := p.line < q.line ∨ p.line = q.line ∧ p.column ≤ q.column

theorem upTo_refl (p : Position) : p.UpTo p := .inr ⟨rfl, le_rfl⟩

theorem Before.upTo {p q : Position} (h : p.Before q) : p.UpTo q := h.imp_right (And.imp_right Nat.le_of_lt)

theorem Before.trans_upTo {p q r : Position} (h : p.Before q) (h' : q.UpTo r) : p.Before r := by
  unfold Before UpTo at *
  omega

theorem UpTo.trans {p q r : Position} (h : p.UpTo q) (h' : q.UpTo r) : p.UpTo r := by
  unfold UpTo at *
  omega

theorem before_pastBlank (p : Position) (c : Char) : p.Before (p.pastBlank c) := by
  unfold Before pastBlank
  split
  · exact .inl (Nat.lt_succ_self p.line)
  · exact .inr ⟨rfl, Nat.lt_succ_self p.column⟩

theorem before_pastLexeme (p : Position) {text : List Char} (h : text ≠ []) : p.Before (p.pastLexeme text) :=
  .inr ⟨rfl, Nat.lt_add_of_pos_right (List.length_pos_iff.mpr h)⟩

end Position

section
variable {p q : Position} {cs : List Char} {tokens : List Token}

theorem Crosses.forward (h : Crosses p cs tokens q) : p.UpTo q := by
  induction h with
  | stay => exact Position.upTo_refl _
  | blank _ _ ih => exact (Position.before_pastBlank _ _).upTo.trans ih
  | lexeme taken _ ih => exact (Position.before_pastLexeme _ taken.spells.ne_nil).upTo.trans ih

theorem Crosses.within (h : Crosses p cs tokens q) :
    ∀ token ∈ tokens, p.UpTo token.span.place ∧ token.span.place.Before q := by
  induction h with
  | stay => nofun
  | blank _ _ ih =>
    intro token mem
    obtain ⟨behind, before⟩ := ih token mem
    exact ⟨(Position.before_pastBlank _ _).upTo.trans behind, before⟩
  | @lexeme p q text l cs tokens taken crossed ih =>
    have step := Position.before_pastLexeme p taken.spells.ne_nil
    intro token mem
    rcases List.mem_cons.mp mem with rfl | mem
    · exact ⟨Position.upTo_refl p, step.trans_upTo crossed.forward⟩
    · obtain ⟨behind, before⟩ := ih token mem
      exact ⟨step.upTo.trans behind, before⟩

/-- **Reading order.** Each token stands in front of the ones behind it. -/
theorem Crosses.ordered (h : Crosses p cs tokens q) :
    (tokens ++ [Token.finishAt q]).Pairwise fun token later => token.span.place.Before later.span.place := by
  induction h with
  | stay => exact List.pairwise_singleton _ _
  | blank _ _ ih => exact ih
  | @lexeme p q text l cs tokens taken crossed ih =>
    have step := Position.before_pastLexeme p taken.spells.ne_nil
    refine .cons (fun later mem => ?_) ih
    rcases List.mem_append.mp mem with mem | mem
    · exact step.trans_upTo (crossed.within later mem).1
    · cases List.mem_singleton.mp mem
      exact step.trans_upTo crossed.forward

end

theorem ordered_of_scan {source : String} {tokens : List Token} (h : Token.scan source = .ok tokens) :
    tokens.Pairwise fun token later => token.span.place.Before later.span.place := by
  obtain ⟨inner, q, rfl, crossed⟩ := scan_eq_ok_iff.mp h
  exact crossed.ordered

/-! ### Texts -/

/-- **Lines and columns.** Each token of a text, `finish` among them, starts on a line whose number falls behind
by the line feeds in the strings in front of it, and its line and column are the right ones exactly if no
string in front of it has a line feed in it. The same holds of the character at which a text cannot be scanned
any further, with the tokens of the characters in front of it. -/
theorem place_right_iff (source : String) :
    (∀ tokens, Token.scan source = .ok tokens → ∀ front token rest, tokens = front ++ token :: rest →
      ∃ before after, source.toList = before ++ after ∧ token.span.start = utf8Len before ∧
        token.span.line + feeds front = 1 + before.count '\n' ∧
        (token.span.place = .behind before ↔ Unbroken front)) ∧
    ∀ e, Token.scan source = .error e → ∃ before c after, source.toList = before ++ c :: after ∧
      e.fault.StopsAt c (utf8Len before) ∧
      ∃ front finish, Token.scan (String.ofList before) = .ok (front ++ [finish]) ∧
        e.line + feeds front = 1 + before.count '\n' ∧
        (⟨utf8Len before, e.line, e.column⟩ = Position.behind before ↔ Unbroken front) := by
  refine ⟨fun tokens scanned front token rest split => ?_, fun e stopped => ?_⟩
  · obtain ⟨inner, q, rfl, crossed⟩ := scan_eq_ok_iff.mp scanned
    obtain ⟨before, after, heq, reached⟩ := crossed.reached split
    have charted := reached.charted_origin
    exact ⟨before, after, heq, charted.offset, charted.line, charted.place_eq_iff⟩
  · obtain ⟨before, c, after, front, q, heq, crossed, stop, line, column⟩ :=
      (crosses_of_scanFrom .origin source.toList).2 e stopped
    have charted := crossed.charted_origin
    rw [charted.offset] at stop
    refine ⟨before, c, after, heq, stop, front, .finishAt q, ?_, ?_, ?_⟩
    · rw [Token.scan, String.toList_ofList]
      exact crossed.scanFrom
    · rw [line]
      exact charted.line
    · rw [line, column, ← charted.offset]
      exact charted.place_eq_iff

/-- A line feed between tokens starts a line, and columns count characters and not bytes. -/
theorem place_right_iff_second_line : ∃ before after, "'é' ==\n 'x\ny' b".toList = before ++ after ∧
    utf8Len before = 9 ∧ (⟨9, 2, 2⟩ : Position) = .behind before := by
  have scanned : Token.scan "'é' ==\n 'x\ny' b" = .ok [⟨.string "é", 0, 4, 1, 1⟩,
      ⟨.comparison .equal, 5, 7, 1, 5⟩, ⟨.string "x\ny", 9, 14, 2, 2⟩, ⟨.name "b", 15, 16, 2, 8⟩,
      ⟨.finish, 16, 16, 2, 9⟩] := by cbv
  obtain ⟨before, after, heq, start, _, right⟩ := (place_right_iff "'é' ==\n 'x\ny' b").1 _ scanned
    [⟨.string "é", 0, 4, 1, 1⟩, ⟨.comparison .equal, 5, 7, 1, 5⟩] ⟨.string "x\ny", 9, 14, 2, 2⟩ _ rfl
  have unbroken : Unbroken [⟨.string "é", 0, 4, 1, 1⟩, ⟨.comparison .equal, 5, 7, 1, 5⟩] := by
    simp [Unbroken]
  exact ⟨before, after, heq, start.symm, right.mpr unbroken⟩

/-- A line feed in a string starts no line: the name behind the string stands on line 2, in column 4, and the
character that no lexeme begins with on line 2, in column 3. -/
theorem place_behind_string :
    Token.scan "'a\nb' c" = .ok [⟨.string "a\nb", 0, 5, 1, 1⟩, ⟨.name "c", 6, 7, 1, 7⟩, ⟨.finish, 7, 7, 1, 8⟩] ∧
      "'a\nb' c".toList = "'a\nb' ".toList ++ ['c'] ∧ Position.behind "'a\nb' ".toList = ⟨6, 2, 4⟩ ∧
      Token.scan "'\n' ~" = .error ⟨.unexpectedCharacter '~' 4, 1, 5⟩ ∧
      "'\n' ~".toList = "'\n' ".toList ++ ['~'] ∧ Position.behind "'\n' ".toList = ⟨4, 2, 3⟩ := by
  refine ⟨by cbv, by cbv, by cbv, by cbv, by cbv, by cbv⟩

end RecordRules
