/-
# Canonical texts nest no deeper

The canonical text of an expression never has more brackets open at once than a text that
is read as the expression. Brackets of arrays and of calls are in both. A parenthesis of
the canonical text stands around an operand whose outermost operator binds more loosely
than its place asks for, and the grammar has such an operand at such a place only in
parentheses: so each parenthesis that is printed is owed to one that was there. One
induction over derivations charges the one to the other (`printsNoDeeper_of_derives`),
with the place of a phrase as the rank that it has to have.

Brackets around a phrase count once, as a phrase closes what it opens
(`Derives.balanced`).

Key definitions: `Expr.printed`, `NoDeeper`, `PrintsNoDeeper`. Key theorems:
`printsNoDeeper_of_derives`, `text_nests_no_deeper`.
-/
import RecordRules.Proofs.Limiting
import RecordRules.Proofs.RoundTrip

namespace RecordRules

/-! ### Phrases close what they open -/

theorem Operator.nesting_lexeme (op : Operator) (opened : Nat) : op.lexeme.nesting opened = opened := by
  cases op <;> rfl

/-- **Balance.** Behind a phrase as many brackets are open as before it. -/
theorem Derives.balanced {ls : List Lexeme} {phrase : Phrase} (h : Derives ls phrase) (opened : Nat) :
    ls.foldl Lexeme.nesting opened = opened := by
  induction h generalizing opened with
  | @literal l value h => cases l <;> cases h <;> rfl
  | field | noItem | itemsEnd | rightsEnd => rfl
  | call _ ih | group _ ih | array _ ih =>
    simp only [List.foldl_cons, List.foldl_append, List.foldl_nil, Lexeme.nesting, ih, Nat.add_sub_cancel]
  | someItems _ _ first more | chain _ _ first more => rw [List.foldl_append, first, more]
  | itemsMore _ _ first more =>
    rw [List.foldl_cons, List.foldl_append, first, more]
    rfl
  | @rightsMore op _ _ _ _ _ _ _ _ first more =>
    rw [List.foldl_cons, List.foldl_append, first, more, op.nesting_lexeme]

section
variable {most opened : Nat} {l : Lexeme} {ls ms : List Lexeme} {phrase : Phrase}

theorem Lexeme.nesting_le (l : Lexeme) {a b : Nat} (h : a ≤ b) : l.nesting a ≤ l.nesting b := by
  cases l with
  | openParen | openBracket => exact Nat.succ_le_succ h
  | closeParen | closeBracket => exact Nat.sub_le_sub_right h 1
  | _ => exact h

theorem foldl_nesting_le (ls : List Lexeme) {a b : Nat} (h : a ≤ b) :
    ls.foldl Lexeme.nesting a ≤ ls.foldl Lexeme.nesting b := by
  induction ls generalizing a b with
  | nil => exact h
  | cons l ls ih => exact ih (l.nesting_le h)

/-- With fewer brackets open before them, lexemes keep to the limits that they keep to. -/
theorem WithinFrom.fewer {fewer : Nat} (h : WithinFrom most opened ls) (le : fewer ≤ opened) :
    WithinFrom most fewer ls :=
  fun front hfront => (foldl_nesting_le front le).trans (h front hfront)

theorem withinFrom_single (plain : l.nesting opened = opened) : WithinFrom most opened [l] ↔ opened ≤ most := by
  rw [withinFrom_cons, withinFrom_nil, plain, and_self]

/-- Phrases keep to a limit one by one. -/
theorem Derives.withinFrom_append (h : Derives ls phrase) :
    WithinFrom most opened (ls ++ ms) ↔ WithinFrom most opened ls ∧ WithinFrom most opened ms := by
  rw [RecordRules.withinFrom_append, h.balanced]

/-- In brackets, a phrase has one more open before it. -/
theorem Derives.withinFrom_brackets {first last : Lexeme} (h : Derives ls phrase)
    (opens : first.nesting opened = opened + 1) (closes : last.nesting (opened + 1) = opened) :
    WithinFrom most opened (first :: (ls ++ [last])) ↔ WithinFrom most (opened + 1) ls := by
  rw [withinFrom_cons, opens, h.withinFrom_append, withinFrom_cons, closes, withinFrom_nil]
  constructor
  · intro within
    exact within.2.1
  · intro within
    have inside := within.le
    have outside : opened ≤ most := Nat.le_of_succ_le inside
    exact ⟨outside, within, inside, outside⟩

end

/-! ### Printed in a place -/

namespace Expr

/-- The lexemes of the expression in a place of that rank: in parentheses, if it binds more loosely. -/
def printed (rank : Nat) (e : Expr) : List Lexeme := enclosed (e.needsOnLeft rank) e.lexemes

variable {most opened rank : Nat} {e left right : Expr} {es : List Expr} {op : Operator}

theorem derives_lexemes (e : Expr) : Derives e.lexemes (.expression e.reread) :=
  (binds_lexemes e).1 .expression e.rank_pos

theorem printed_of_le (h : rank ≤ e.rank) : e.printed rank = e.lexemes := by
  have free : e.needsOnLeft rank = false := decide_eq_false (Nat.not_lt.mpr h)
  rw [printed, free]
  rfl

theorem printed_of_lt (h : e.rank < rank) : e.printed rank = .openParen :: (e.lexemes ++ [.closeParen]) := by
  have needed : e.needsOnLeft rank = true := decide_eq_true h
  rw [printed, needed]
  rfl

theorem withinFrom_printed_of_lt (h : e.rank < rank) :
    WithinFrom most opened (e.printed rank) ↔ WithinFrom most (opened + 1) e.lexemes := by
  rw [printed_of_lt h]
  exact e.derives_lexemes.withinFrom_brackets rfl rfl

/-- A place inside parentheses is deep enough for the parentheses that any place needs. -/
theorem withinFrom_printed (h : WithinFrom most (opened + 1) e.lexemes) (rank : Nat) :
    WithinFrom most opened (e.printed rank) := by
  rcases Nat.lt_or_ge e.rank rank with loose | tight
  · exact (withinFrom_printed_of_lt loose).mpr h
  · rw [printed_of_le tight]
    exact h.fewer (Nat.le_succ opened)

/-- A place of a lower rank needs no more. -/
theorem withinFrom_printed_mono {looser : Nat} (h : WithinFrom most opened (e.printed rank)) (le : looser ≤ rank) :
    WithinFrom most opened (e.printed looser) := by
  rcases Nat.lt_or_ge e.rank rank with loose | tight
  · exact withinFrom_printed ((withinFrom_printed_of_lt loose).mp h) looser
  · rw [printed_of_le tight] at h
    rwa [printed_of_le (Nat.le_trans le tight)]

theorem rank_join : (op.join left right).rank = op.level.rank := by
  rcases op with op | op | op <;> rfl

theorem needsOnRight_eq : right.needsOnRight rank = right.needsOnLeft (rank + 1) :=
  decide_eq_decide.mpr Nat.lt_succ_iff.symm

/-- In a place of its own rank, two sides joined are the sides in theirs. -/
theorem printed_join : (op.join left right).printed op.level.rank =
    left.printed op.level.rank ++ op.lexeme :: right.printed (op.level.rank + 1) := by
  rw [printed_of_le (Nat.le_of_eq rank_join.symm), lexemes_join, needsOnRight_eq]
  rfl

theorem foldl_printed (rank : Nat) (e : Expr) (opened : Nat) :
    (e.printed rank).foldl Lexeme.nesting opened = opened := by
  rcases Nat.lt_or_ge e.rank rank with loose | tight
  · rw [printed_of_lt loose]
    exact (Derives.group e.derives_lexemes).balanced opened
  · rw [printed_of_le tight]
    exact e.derives_lexemes.balanced opened

theorem withinFrom_join (hleft : WithinFrom most opened (left.printed op.level.rank))
    (hright : WithinFrom most opened (right.printed (op.level.rank + 1))) :
    WithinFrom most opened ((op.join left right).printed op.level.rank) := by
  rw [printed_join, withinFrom_append, foldl_printed, withinFrom_cons, op.nesting_lexeme]
  exact ⟨hleft, hleft.le, hright⟩

/-- A chain in a place of its rank is its sides in theirs. -/
theorem withinFrom_joinAll {level : Level} {rights : List (Operator × Expr)}
    (first : WithinFrom most opened (e.printed level.rank))
    (more : ∀ right ∈ rights, right.1.level = level ∧ WithinFrom most opened (right.2.printed (level.rank + 1))) :
    WithinFrom most opened ((Operator.joinAll e rights).printed level.rank) := by
  induction rights generalizing e with
  | nil => exact first
  | cons right rights ih =>
    obtain ⟨⟨rfl, here⟩, behind⟩ := List.forall_mem_cons.mp more
    exact ih (withinFrom_join first here) behind

theorem withinFrom_listBefore (here : opened ≤ most) (each : ∀ e ∈ es, WithinFrom most opened e.lexemes) :
    WithinFrom most opened (listBefore [] es) := by
  induction es with
  | nil => exact withinFrom_nil.mpr here
  | cons e es ih =>
    obtain ⟨first, more⟩ := List.forall_mem_cons.mp each
    cases es with
    | nil => exact first
    | cons e' es =>
      show WithinFrom most opened (e.lexemesBefore (.comma :: listBefore [] (e' :: es)))
      rw [lexemesBefore_eq, e.derives_lexemes.withinFrom_append, withinFrom_cons]
      exact ⟨first, here, ih more⟩

end Expr

/-! ### Printed phrases -/

/-- Whatever is open before them, the printed lexemes keep to the limits that the lexemes keep to. -/
def NoDeeper (printed ls : List Lexeme) : Prop :=
  ∀ most opened, WithinFrom most opened ls → WithinFrom most opened printed

/-- Printed in the place of the phrase, its trees nest no deeper than its lexemes. -/
def PrintsNoDeeper (ls : List Lexeme) : Phrase → Prop
  | .operand e => NoDeeper (e.printed 4) ls
  | .chain level e => NoDeeper (e.printed level.rank) ls
  | .rights level rights =>
    ∀ right ∈ rights, right.1.level = level ∧ NoDeeper (right.2.printed (level.rank + 1)) ls
  | .list items | .items items => ∀ e ∈ items, NoDeeper e.lexemes ls

theorem printsNoDeeper_part {level : Level} {ls : List Lexeme} {e : Expr} (h : PrintsNoDeeper ls (level.part e)) :
    NoDeeper (e.printed (level.rank + 1)) ls := by
  cases level <;> exact h

theorem noDeeper_lexemes {ls : List Lexeme} {e : Expr} (h : PrintsNoDeeper ls (.expression e)) :
    NoDeeper e.lexemes ls := by
  rw [← Expr.printed_of_le e.rank_pos]
  exact h

/-- **Parentheses are owed.** One case for each rule of the grammar. -/
theorem printsNoDeeper_of_derives {ls : List Lexeme} {phrase : Phrase} (h : Derives ls phrase) :
    PrintsNoDeeper ls phrase := by
  induction h with
  | @literal l value h =>
    intro most opened within
    have plain : value.lexeme.nesting opened = opened := by cases value <;> rfl
    exact (withinFrom_single plain).mpr within.le
  | field => exact fun _ _ within => within
  | @call function ls args inside ih =>
    intro most opened within
    obtain ⟨here, within⟩ := withinFrom_cons.mp within
    have within := (inside.withinFrom_brackets rfl rfl).mp within
    have items := Expr.withinFrom_listBefore within.le fun e mem => ih e mem _ _ within
    show WithinFrom most opened (Expr.call function args).lexemes
    rw [Expr.lexemes_call, withinFrom_cons]
    exact ⟨here, ((derives_listBefore args).withinFrom_brackets rfl rfl).mpr items⟩
  | group inside ih =>
    intro most opened within
    have within := (inside.withinFrom_brackets rfl rfl).mp within
    exact Expr.withinFrom_printed (noDeeper_lexemes ih _ _ within) 4
  | @array ls items inside ih =>
    intro most opened within
    have within := (inside.withinFrom_brackets rfl rfl).mp within
    have each := Expr.withinFrom_listBefore within.le fun e mem => ih e mem _ _ within
    show WithinFrom most opened (Expr.array items).lexemes
    rw [Expr.lexemes_array]
    exact ((derives_listBefore items).withinFrom_brackets rfl rfl).mpr each
  | noItem | itemsEnd | rightsEnd => nofun
  | someItems first _ ihFirst ihMore =>
    refine List.forall_mem_cons.mpr ⟨fun most opened within => ?_, fun e mem most opened within => ?_⟩
    · exact noDeeper_lexemes ihFirst _ _ (first.withinFrom_append.mp within).1
    · exact ihMore e mem _ _ (first.withinFrom_append.mp within).2
  | itemsMore first _ ihFirst ihMore =>
    refine List.forall_mem_cons.mpr ⟨fun most opened within => ?_, fun e mem most opened within => ?_⟩
    · have within := (withinFrom_cons.mp within).2
      exact noDeeper_lexemes ihFirst _ _ (first.withinFrom_append.mp within).1
    · have within := (withinFrom_cons.mp within).2
      exact ihMore e mem _ _ (first.withinFrom_append.mp within).2
  | @chain level ls ms e rights first _ ihFirst ihMore =>
    intro most opened within
    obtain ⟨here, behind⟩ := first.withinFrom_append.mp within
    have part := printsNoDeeper_part ihFirst _ _ here
    refine Expr.withinFrom_joinAll (Expr.withinFrom_printed_mono part (Nat.le_succ level.rank)) fun right mem => ?_
    exact ⟨(ihMore right mem).1, (ihMore right mem).2 _ _ behind⟩
  | @rightsMore op level ls ms e rights hop first _ ihFirst ihMore =>
    have split {most opened : Nat} (within : WithinFrom most opened (op.lexeme :: (ls ++ ms))) :
        WithinFrom most opened ls ∧ WithinFrom most opened ms := by
      rw [withinFrom_cons, op.nesting_lexeme] at within
      exact first.withinFrom_append.mp within.2
    refine List.forall_mem_cons.mpr ⟨⟨hop, fun most opened within => ?_⟩, fun right mem => ?_⟩
    · exact printsNoDeeper_part ihFirst _ _ (split within).1
    · exact ⟨(ihMore right mem).1, fun most opened within => (ihMore right mem).2 _ _ (split within).2⟩

/-! ### Canonical texts -/

open Parse

/-- The canonical text keeps to the limits that a text keeps to which is read as the expression. -/
theorem textWithin_text {source : String} {formula : Formula} {most : Nat}
    (parsed : Formula.parse source = .ok formula) (within : TextWithin most source) :
    TextWithin most formula.expr.text := by
  obtain ⟨tokens, scanned, derives, _⟩ := Formula.parse_eq_ok_iff.mp parsed
  obtain ⟨printed, scannedText, lexemes⟩ := scan_text (wellFormed_of_parse parsed)
  intro other scannedOther
  cases scannedText.symm.trans scannedOther
  rw [lexemes]
  exact noDeeper_lexemes (printsNoDeeper_of_derives derives) most 0 (within tokens scanned)

/-- **Canonical texts nest no deeper.** The canonical text of an expression never has more brackets open at
once than a text that is read as the expression. So what is read under a limit has a canonical text that is
read under the limit, as an expression alike. -/
theorem text_nests_no_deeper (source : String) (most : Nat) (formula : Formula) :
    (Formula.parseWithin (some most) source = .ok formula →
      ∃ printed, Formula.parseWithin (some most) formula.expr.text = .ok printed ∧
        printed.expr.Alike formula.expr) ∧
    (Formula.parse source = .ok formula → TextWithin most source → TextWithin most formula.expr.text) := by
  refine ⟨fun read => ?_, textWithin_text⟩
  obtain ⟨parsed, within⟩ := Formula.parseWithin_eq_ok_iff.mp read
  have printed := parse_text (wellFormed_of_parse parsed)
  exact ⟨_, Formula.parseWithin_eq_ok_iff.mpr ⟨printed, textWithin_text parsed within⟩, formula.expr.alike_reread⟩

/-- The parentheses around the looser operator are printed, those around the name are not. -/
theorem text_nests_no_deeper_grouped :
    ∃ formula printed, Formula.parseWithin (some 1) "(a or b) and (c)" = .ok formula ∧
      formula.expr.text = "(a or b) and c" ∧
      Formula.parseWithin (some 1) formula.expr.text = .ok printed ∧ printed.expr.Alike formula.expr ∧
      TextWithin 1 formula.expr.text := by
  have read : Formula.parseWithin (some 1) "(a or b) and (c)" =
      .ok ⟨.connect .and (.connect .or (.field "a") (.field "b")) (.field "c"),
        .ofList ["a", "b", "c"], .empty⟩ := by
    cbv
  obtain ⟨parsed, within⟩ := Formula.parseWithin_eq_ok_iff.mp read
  obtain ⟨again, shallow⟩ := text_nests_no_deeper "(a or b) and (c)" 1 _
  obtain ⟨printed, readAgain, alike⟩ := again read
  exact ⟨_, printed, read, by cbv, readAgain, alike, shallow parsed within⟩

end RecordRules
