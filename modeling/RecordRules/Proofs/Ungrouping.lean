/-
# Parentheses that are printed are needed

Without any one of the pairs of parentheses that group something in it, the canonical text of
an expression is still read, and as another expression.

It is read because taking such a pair out of an expression leaves one
(`Derives.ungrouped`): what stood between the parentheses is a chain of operands and
operators, and so is what stands there with the chain around it. It is another expression
because none has a text with fewer parentheses than its canonical one
(`printsFewest_of_derives`), and what remains has one less.

A pair is found in the lexemes alone: an opening parenthesis, and the first closing one behind
it up to which as many close as open. It is a call's if a name stands right before it.

Key definitions: `Matched`, `Groups`, `Shaped`, `PrintsFewest`. Key theorems: `Derives.ungrouped`,
`printsFewest_of_derives`, `text_parentheses_needed`.
-/
import RecordRules.Proofs.Canonical
import RecordRules.Proofs.Nesting
import RecordRules.Proofs.Shallow

namespace RecordRules

/-! ### Pairs of parentheses -/

/-- As many parentheses close as open, and up to no point more of them. -/
def Matched (ls : List Lexeme) : Prop :=
  ls.count .closeParen = ls.count .openParen ∧
    ∀ front, front <+: ls → front.count .closeParen ≤ front.count .openParen

instance (ls : List Lexeme) : Decidable (Matched ls) :=
  decidable_of_iff (ls.count .closeParen = ls.count .openParen ∧
    ∀ front ∈ ls.inits, front.count .closeParen ≤ front.count .openParen)
    (by simp only [List.mem_inits, Matched])

/-- The parentheses around the lexemes inside, with those in front before them, are a pair, and no call's. -/
def Groups (front inside : List Lexeme) : Prop :=
  Matched inside ∧ ∀ function, front.getLast? ≠ some (.name function)

section
variable {l : Lexeme} {ls ms front inside behind part : List Lexeme} {phrase : Phrase}

theorem matched_nil : Matched [] := by
  refine ⟨rfl, fun front hfront => ?_⟩
  rw [List.prefix_nil.mp hfront]
  exact Nat.le_refl 0

theorem matched_single (opens : l ≠ .openParen) (closes : l ≠ .closeParen) : Matched [l] := by
  refine ⟨by simp [opens, closes], fun front hfront => ?_⟩
  rcases List.prefix_cons_iff.mp hfront with rfl | ⟨inner, rfl, hinner⟩
  · exact Nat.le_refl 0
  · rw [List.prefix_nil.mp hinner]
    simp [closes]

theorem Matched.append (h : Matched ls) (h' : Matched ms) : Matched (ls ++ ms) := by
  refine ⟨by rw [List.count_append, List.count_append, h.1, h'.1], fun front hfront => ?_⟩
  rcases List.prefix_or_prefix_of_prefix hfront (List.prefix_append ls ms) with short | ⟨inner, rfl⟩
  · exact h.2 front short
  · rw [List.count_append, List.count_append, h.1]
    exact Nat.add_le_add_left (h'.2 inner ((List.prefix_append_right_inj ls).mp hfront)) _

theorem Matched.cons (h : Matched ls) (opens : l ≠ .openParen) (closes : l ≠ .closeParen) : Matched (l :: ls) :=
  (matched_single opens closes).append h

theorem Matched.grouped (h : Matched ls) : Matched (.openParen :: (ls ++ [.closeParen])) := by
  refine ⟨by simp [h.1], fun front hfront => ?_⟩
  rcases List.prefix_cons_iff.mp hfront with rfl | ⟨inner, rfl, hinner⟩
  · exact Nat.le_refl 0
  · rcases List.prefix_concat_iff.mp hinner with rfl | short
    · simp [h.1]
    · have := h.2 inner short
      simp
      omega

theorem Operator.lexeme_ne_openParen (op : Operator) : op.lexeme ≠ .openParen := by
  cases op <;> nofun

theorem Operator.lexeme_ne_closeParen (op : Operator) : op.lexeme ≠ .closeParen := by
  cases op <;> nofun

/-- **Phrases close the parentheses that they open.** -/
theorem Derives.matched (h : Derives ls phrase) : Matched ls := by
  induction h with
  | @literal l value h => cases l <;> cases h <;> exact matched_single nofun nofun
  | field => exact matched_single nofun nofun
  | call _ ih => exact ih.grouped.cons nofun nofun
  | group _ ih => exact ih.grouped
  | array _ ih =>
    have closed := ih.append (matched_single (l := .closeBracket) nofun nofun)
    exact closed.cons nofun nofun
  | noItem | itemsEnd | rightsEnd => exact matched_nil
  | someItems _ _ first more | chain _ _ first more => exact first.append more
  | itemsMore _ _ first more => exact (first.append more).cons nofun nofun
  | @rightsMore op _ _ _ _ _ _ _ _ first more =>
    exact (first.append more).cons op.lexeme_ne_openParen op.lexeme_ne_closeParen

/-! ### Where a pair lies -/

/-- What opens in matched lexemes closes in them. -/
theorem Matched.closes (h : Matched ls) (inner : Matched inside) (begins : part <+: inside) :
    ls ≠ front ++ .openParen :: part := by
  rintro rfl
  have before := h.2 front (List.prefix_append _ _)
  have inside := inner.2 part begins
  have same := h.1
  simp only [List.count_append, List.count_cons_self, List.count_cons_of_ne, ne_eq, reduceCtorEq, not_false_eq_true]
    at same
  omega

/-- **A pair is not torn.** In matched lexemes and those behind them, it lies in the ones or in the others. -/
theorem Matched.pair_append (h : Matched ls) (inner : Matched inside)
    (split : ls ++ ms = front ++ .openParen :: (inside ++ .closeParen :: behind)) :
    (∃ rest, behind = rest ++ ms ∧ ls = front ++ .openParen :: (inside ++ .closeParen :: rest)) ∨
      ∃ rest, front = ls ++ rest ∧ ms = rest ++ .openParen :: (inside ++ .closeParen :: behind) := by
  rcases List.append_eq_append_iff.mp split with ⟨rest, hfront, hms⟩ | ⟨rest, rfl, hrest⟩
  · exact .inr ⟨rest, hfront, hms⟩
  · rcases List.cons_eq_append_iff.mp hrest with ⟨rfl, rfl⟩ | ⟨rest, rfl, hinside⟩
    · exact .inr ⟨[], by simp, rfl⟩
    · rcases List.append_eq_append_iff.mp hinside with ⟨rest, rfl, hbehind⟩ | ⟨last, rfl, _⟩
      · rcases List.cons_eq_append_iff.mp hbehind with ⟨rfl, _⟩ | ⟨rest, rfl, rfl⟩
        · rw [List.append_nil] at h
          exact absurd rfl (h.closes inner List.prefix_rfl)
        · exact .inl ⟨rest, rfl, rfl⟩
      · exact absurd rfl (h.closes inner (List.prefix_append _ _))

theorem not_pair_single : [l] ≠ front ++ .openParen :: (inside ++ .closeParen :: behind) := by
  intro split
  have := congrArg List.length split
  simp at this
  omega

theorem not_pair_nil : [] ≠ front ++ .openParen :: (inside ++ .closeParen :: behind) := by
  simp

/-- No pair takes in the lexeme behind matched ones. -/
theorem Matched.pair_snoc (h : Matched ls) (inner : Matched inside)
    (split : ls ++ [l] = front ++ .openParen :: (inside ++ .closeParen :: behind)) :
    ∃ rest, behind = rest ++ [l] ∧ ls = front ++ .openParen :: (inside ++ .closeParen :: rest) :=
  (h.pair_append inner split).resolve_right fun ⟨_, _, torn⟩ => not_pair_single torn

/-- A pair that does not begin with the first lexeme lies in the others. -/
theorem pair_cons (split : l :: ls = front ++ .openParen :: (inside ++ .closeParen :: behind)) :
    (l = .openParen ∧ front = [] ∧ ls = inside ++ .closeParen :: behind) ∨
      ∃ rest, front = l :: rest ∧ ls = rest ++ .openParen :: (inside ++ .closeParen :: behind) := by
  rcases List.cons_eq_append_iff.mp split with ⟨rfl, same⟩ | ⟨rest, rfl, rfl⟩
  · obtain ⟨rfl, rfl⟩ := List.cons.inj same
    exact .inl ⟨rfl, rfl, rfl⟩
  · exact .inr ⟨rest, rfl, rfl⟩

/-- The parenthesis that opens before matched lexemes closes right behind them. -/
theorem Matched.pair_whole (h : Matched ls) (inner : Matched inside)
    (split : ls ++ [.closeParen] = inside ++ .closeParen :: behind) : inside = ls ∧ behind = [] := by
  rcases List.append_eq_append_iff.mp split with ⟨rest, rfl, hrest⟩ | ⟨rest, rfl, hrest⟩
  · -- a closing parenthesis inside would be the last lexeme, with nothing behind it
    cases rest with
    | nil => simpa using hrest
    | cons l rest => exact absurd (congrArg List.length hrest) (by simp)
  · cases rest with
    | nil => simpa using hrest
    | cons l rest =>
      obtain ⟨rfl, -⟩ := List.cons.inj hrest
      have more := h.2 (inside ++ [.closeParen]) ⟨rest, by simp⟩
      have same := inner.1
      simp at more
      omega

theorem Groups.of_append (h : Groups (ls ++ front) inside) : Groups front inside := by
  refine ⟨h.1, fun function last => h.2 function ?_⟩
  rw [List.getLast?_append, last]
  rfl

theorem Groups.of_cons (h : Groups (l :: front) inside) : Groups front inside := @Groups.of_append [l] _ _ h

end

/-! ### Chains without parentheses -/

/-- The lexemes are an expression. -/
def IsExpression (ls : List Lexeme) : Prop := ∃ e, Derives ls (.expression e)

section
variable {ls ms front inside behind : List Lexeme} {phrase : Phrase} {level : Level} {e : Expr}

theorem isExpression_of_operand (h : Derives ls (.operand e)) : IsExpression ls :=
  ⟨e, (binds_of_operand h).1 .expression (by decide)⟩

open Parse in
/-- An expression goes on with any operator and an operand. -/
theorem IsExpression.snoc (h : IsExpression ls) (op : Operator) (last : Derives ms (.operand e)) :
    IsExpression (ls ++ op.lexeme :: ms) := by
  obtain ⟨whole, derives⟩ := h
  have read := State.read?_of_derives derives
  rw [← List.append_nil ls, read?_append] at read
  obtain ⟨s, after, finished⟩ := Option.bind_eq_some_iff.mp read
  -- the machine tells which operands wait for the right side of the operator
  obtain ⟨frames, waits, left, hframes, hwaits, hleft, rfl⟩ := spells_settled (spells_after? spells_start after)
  simp only [State.read?, State.formula?] at finished
  split at finished
  · rename_i hs hnil
    rw [hnil] at hframes
    rw [hs] at hleft
    cases hframes
    have derives := (hwaits.wait hleft op).expression last
    have split : waits ++ (left ++ [op.lexeme]) ++ ms = waits ++ left ++ op.lexeme :: ms := by simp
    rw [split] at derives
    exact ⟨_, derives⟩
  · cases finished

/-- Behind an expression, the lexemes of the phrase make one with it: behind an operator if they begin with an
operand. -/
def GoesOn (ls : List Lexeme) : Phrase → Prop
  | .operand _ | .chain _ _ => ∀ before (op : Operator), IsExpression before → IsExpression (before ++ op.lexeme :: ls)
  | .rights _ _ => ∀ before, IsExpression before → IsExpression (before ++ ls)
  | .list _ | .items _ => True

theorem goesOn_part (h : GoesOn ls (level.part e)) {before : List Lexeme} (op : Operator)
    (left : IsExpression before) : IsExpression (before ++ op.lexeme :: ls) := by
  cases level <;> exact h before op left

/-- **Expressions chain.** -/
theorem Derives.goesOn (h : Derives ls phrase) : GoesOn ls phrase := by
  induction h with
  | literal h => exact fun _ op left => left.snoc op (.literal h)
  | field => exact fun _ op left => left.snoc op .field
  | call inside => exact fun _ op left => left.snoc op (.call inside)
  | group inside => exact fun _ op left => left.snoc op (.group inside)
  | array inside => exact fun _ op left => left.snoc op (.array inside)
  | noItem | someItems | itemsEnd | itemsMore => trivial
  | chain _ _ first more =>
    intro before op left
    have := more _ (goesOn_part first op left)
    rwa [List.append_assoc] at this
  | rightsEnd =>
    intro before left
    rwa [List.append_nil]
  | @rightsMore op _ _ _ _ _ _ _ _ first more =>
    intro before left
    have := more _ (goesOn_part first op left)
    rwa [List.append_assoc] at this

/-- The lexemes are a phrase of the kind, except that chains of any level may stand in each other's places. -/
def Shaped (ls : List Lexeme) : Phrase → Prop
  | .operand _ | .chain _ _ => IsExpression ls
  | .rights _ _ => ∀ before, IsExpression before → IsExpression (before ++ ls)
  | .list _ => ∃ items, Derives ls (.list items)
  | .items _ => ∃ items, Derives ls (.items items)

theorem shaped_part : Shaped ls (level.part e) ↔ IsExpression ls := by
  cases level <;> rfl

theorem isExpression_of_part (h : Derives ls (level.part e)) : IsExpression ls :=
  ⟨e, (binds_of_chain (Derives.chain_of_part h)).1 .expression (by cases level <;> decide)⟩

/-- **Without a pair.** Taking a pair of parentheses that is no call's out of a phrase leaves one. One case for
each rule of the grammar, and for each part of the rule in which the pair may lie. -/
theorem Derives.ungrouped (h : Derives ls phrase)
    (split : ls = front ++ .openParen :: (inside ++ .closeParen :: behind)) (groups : Groups front inside) :
    Shaped (front ++ (inside ++ behind)) phrase := by
  induction h generalizing front behind with
  | literal | field => exact absurd split not_pair_single
  | noItem | itemsEnd | rightsEnd => exact absurd split not_pair_nil
  | @call function ls args list ih =>
    obtain ⟨⟨⟩, _⟩ | ⟨front, rfl, opened⟩ := pair_cons split
    obtain ⟨_, rfl, _⟩ | ⟨front, rfl, listed⟩ := pair_cons opened
    · exact absurd rfl (groups.2 function)
    · obtain ⟨behind, rfl, here⟩ := list.matched.pair_snoc groups.1 listed
      obtain ⟨args, rest⟩ := ih here groups.of_cons.of_cons
      have := isExpression_of_operand (@Derives.call function _ _ rest)
      simpa only [Shaped, List.cons_append, List.append_assoc] using this
  | @group ls e grouped ih =>
    obtain ⟨_, rfl, whole⟩ | ⟨front, rfl, opened⟩ := pair_cons split
    · obtain ⟨rfl, rfl⟩ := grouped.matched.pair_whole groups.1 whole
      rw [List.append_nil]
      exact ⟨e, grouped⟩
    · obtain ⟨behind, rfl, here⟩ := grouped.matched.pair_snoc groups.1 opened
      obtain ⟨e, rest⟩ := ih here groups.of_cons
      have := isExpression_of_operand (.group rest)
      simpa only [Shaped, List.cons_append, List.append_assoc] using this
  | @array ls items list ih =>
    obtain ⟨⟨⟩, _⟩ | ⟨front, rfl, opened⟩ := pair_cons split
    obtain ⟨behind, rfl, here⟩ := list.matched.pair_snoc groups.1 opened
    obtain ⟨items, rest⟩ := ih here groups.of_cons
    have := isExpression_of_operand (.array rest)
    simpa only [Shaped, List.cons_append, List.append_assoc] using this
  | @someItems ls ms e es first more ihFirst ihMore =>
    obtain ⟨behind, rfl, here⟩ | ⟨front, rfl, here⟩ := first.matched.pair_append groups.1 split
    · obtain ⟨e, rest⟩ := ihFirst here groups
      have := rest.someItems more
      simp only [List.append_assoc] at this
      exact ⟨_, this⟩
    · obtain ⟨es, rest⟩ := ihMore here groups.of_append
      have := first.someItems rest
      rw [← List.append_assoc] at this
      exact ⟨_, this⟩
  | @itemsMore ls ms e es first more ihFirst ihMore =>
    obtain ⟨⟨⟩, _⟩ | ⟨front, rfl, listed⟩ := pair_cons split
    obtain ⟨behind, rfl, here⟩ | ⟨front, rfl, here⟩ := first.matched.pair_append groups.1 listed
    · obtain ⟨e, rest⟩ := ihFirst here groups.of_cons
      have := rest.itemsMore more
      simp only [List.append_assoc] at this
      exact ⟨_, this⟩
    · obtain ⟨es, rest⟩ := ihMore here groups.of_cons.of_append
      have := first.itemsMore rest
      rw [← List.append_assoc] at this
      exact ⟨_, this⟩
  | @chain level ls ms e rights first more ihFirst ihMore =>
    obtain ⟨behind, rfl, here⟩ | ⟨front, rfl, here⟩ := first.matched.pair_append groups.1 split
    · have := more.goesOn _ (shaped_part.mp (ihFirst here groups))
      simpa only [Shaped, List.append_assoc] using this
    · have := ihMore here groups.of_append _ (isExpression_of_part first)
      simpa only [Shaped, List.append_assoc] using this
  | @rightsMore op level ls ms e rights hop first more ihFirst ihMore =>
    intro before left
    obtain ⟨opens, _⟩ | ⟨front, rfl, chained⟩ := pair_cons split
    · exact absurd opens op.lexeme_ne_openParen
    obtain ⟨behind, rfl, here⟩ | ⟨front, rfl, here⟩ := first.matched.pair_append groups.1 chained
    · obtain ⟨e, rest⟩ := shaped_part.mp (ihFirst here groups.of_cons)
      have := more.goesOn _ (rest.goesOn before op left)
      simpa only [List.cons_append, List.append_assoc] using this
    · have := ihMore here groups.of_cons.of_append _ (goesOn_part first.goesOn op left)
      simpa only [List.cons_append, List.append_assoc] using this

end

/-! ### Parentheses of canonical texts -/

/-- How many parentheses open in the lexemes. -/
def opensIn (ls : List Lexeme) : Nat := ls.count .openParen

section
variable {l : Lexeme} {ls ms : List Lexeme}

@[simp] theorem opensIn_nil : opensIn [] = 0 := rfl

@[simp] theorem opensIn_append : opensIn (ls ++ ms) = opensIn ls + opensIn ms := List.count_append

theorem opensIn_cons (opens : l ≠ .openParen) : opensIn (l :: ls) = opensIn ls := List.count_cons_of_ne opens

@[simp] theorem opensIn_comma : opensIn (.comma :: ls) = opensIn ls := opensIn_cons nofun

@[simp] theorem opensIn_closeParen : opensIn (.closeParen :: ls) = opensIn ls := opensIn_cons nofun

@[simp] theorem opensIn_name {name : String} : opensIn (.name name :: ls) = opensIn ls := opensIn_cons nofun

@[simp] theorem opensIn_openBracket : opensIn (.openBracket :: ls) = opensIn ls := opensIn_cons nofun

@[simp] theorem opensIn_openParen : opensIn (.openParen :: ls) = opensIn ls + 1 := List.count_cons_self

@[simp] theorem opensIn_group : opensIn (.openParen :: (ls ++ [.closeParen])) = opensIn ls + 1 := by
  rw [opensIn_openParen, opensIn_append, opensIn_closeParen, opensIn_nil, Nat.add_zero]

end

namespace Expr

variable {rank : Nat} {e left right : Expr} {es : List Expr} {op : Operator}

theorem opensIn_printed_le (rank : Nat) (e : Expr) : opensIn (e.printed rank) ≤ opensIn e.lexemes + 1 := by
  rcases Nat.lt_or_ge e.rank rank with loose | tight
  · rw [printed_of_lt loose, opensIn_group]
  · rw [printed_of_le tight]
    exact Nat.le_succ _

/-- A place of a lower rank needs no more parentheses. -/
theorem opensIn_printed_mono {looser : Nat} (le : looser ≤ rank) :
    opensIn (e.printed looser) ≤ opensIn (e.printed rank) := by
  rcases Nat.lt_or_ge e.rank rank with loose | tight
  · rw [printed_of_lt loose, opensIn_group]
    exact opensIn_printed_le looser e
  · rw [printed_of_le tight, printed_of_le (Nat.le_trans le tight)]

theorem opensIn_joinAll {level : Level} {rights : List (Operator × Expr)}
    (levels : ∀ right ∈ rights, right.1.level = level) :
    opensIn ((Operator.joinAll e rights).printed level.rank) =
      opensIn (e.printed level.rank) + (rights.map fun right => opensIn (right.2.printed (level.rank + 1))).sum := by
  induction rights generalizing e with
  | nil => rfl
  | cons right rights ih =>
    obtain ⟨rfl, more⟩ := List.forall_mem_cons.mp levels
    have joined : opensIn ((right.1.join e right.2).printed right.1.level.rank) =
        opensIn (e.printed right.1.level.rank) + opensIn (right.2.printed (right.1.level.rank + 1)) := by
      rw [printed_join, opensIn_append, opensIn_cons right.1.lexeme_ne_openParen]
    have rest := @ih (right.1.join e right.2) more
    rw [joined, Nat.add_assoc] at rest
    exact rest

theorem opensIn_listBefore : opensIn (listBefore [] es) = (es.map fun e => opensIn e.lexemes).sum := by
  have behind (es : List Expr) :
      opensIn (es.flatMap fun e => .comma :: e.lexemes) = (es.map fun e => opensIn e.lexemes).sum := by
    induction es with
    | nil => rfl
    | cons e es ih =>
      rw [List.flatMap_cons, List.cons_append, opensIn_comma, opensIn_append, ih]
      rfl
  cases es with
  | nil => rfl
  | cons e es =>
    rw [listBefore_cons, opensIn_append, behind]
    rfl

end Expr

/-- Printed in the place of the phrase, its trees have no more parentheses than its lexemes. -/
def PrintsFewest (ls : List Lexeme) : Phrase → Prop
  | .operand e => opensIn (e.printed 4) ≤ opensIn ls
  | .chain level e => opensIn (e.printed level.rank) ≤ opensIn ls
  | .rights level rights => (∀ right ∈ rights, right.1.level = level) ∧
    (rights.map fun right => opensIn (right.2.printed (level.rank + 1))).sum ≤ opensIn ls
  | .list items | .items items => (items.map fun e => opensIn e.lexemes).sum ≤ opensIn ls

section
variable {ls : List Lexeme} {phrase : Phrase} {level : Level} {e e' : Expr}

theorem printsFewest_part (h : PrintsFewest ls (level.part e)) :
    opensIn (e.printed (level.rank + 1)) ≤ opensIn ls := by
  cases level <;> exact h

theorem opensIn_lexemes_le (h : PrintsFewest ls (.expression e)) : opensIn e.lexemes ≤ opensIn ls := by
  rw [← Expr.printed_of_le e.rank_pos]
  exact h

/-- **No text has fewer parentheses.** One case for each rule of the grammar. -/
theorem printsFewest_of_derives (h : Derives ls phrase) : PrintsFewest ls phrase := by
  induction h with
  | @literal l value h =>
    have plain : opensIn [value.lexeme] = 0 := by cases value <;> rfl
    show opensIn [value.lexeme] ≤ opensIn [l]
    rw [plain]
    exact Nat.zero_le _
  | field => exact Nat.le_refl _
  | @call function ls args _ ih =>
    show opensIn (Expr.call function args).lexemes ≤ _
    rw [Expr.lexemes_call, opensIn_name, opensIn_name, opensIn_group, opensIn_group, Expr.opensIn_listBefore]
    exact Nat.succ_le_succ ih
  | @group ls e _ ih =>
    rw [PrintsFewest, opensIn_group]
    exact Nat.le_trans (Expr.opensIn_printed_le 4 e) (Nat.succ_le_succ (opensIn_lexemes_le ih))
  | @array ls items _ ih =>
    show opensIn (Expr.array items).lexemes ≤ _
    rw [Expr.lexemes_array, opensIn_openBracket, opensIn_openBracket, opensIn_append, opensIn_append,
      Expr.opensIn_listBefore]
    exact Nat.add_le_add_right ih _
  | noItem | itemsEnd => exact Nat.le_refl 0
  | rightsEnd => exact ⟨nofun, Nat.le_refl 0⟩
  | someItems _ _ first more =>
    rw [PrintsFewest, List.map_cons, List.sum_cons, opensIn_append]
    exact Nat.add_le_add (opensIn_lexemes_le first) more
  | itemsMore _ _ first more =>
    rw [PrintsFewest, List.map_cons, List.sum_cons, opensIn_comma, opensIn_append]
    exact Nat.add_le_add (opensIn_lexemes_le first) more
  | @chain level ls ms e rights _ _ first more =>
    have part := Nat.le_trans (Expr.opensIn_printed_mono (Nat.le_succ level.rank)) (printsFewest_part first)
    rw [PrintsFewest, Expr.opensIn_joinAll more.1, opensIn_append]
    exact Nat.add_le_add part more.2
  | @rightsMore op level ls ms e rights hop _ _ first more =>
    refine ⟨List.forall_mem_cons.mpr ⟨hop, more.1⟩, ?_⟩
    rw [List.map_cons, List.sum_cons, opensIn_cons op.lexeme_ne_openParen, opensIn_append]
    exact Nat.add_le_add (printsFewest_part first) more.2

end

/-! ### Canonical texts without a pair -/

open Parse

/-- **Parentheses that are printed are needed.** Take any pair of parentheses that is no call's out of the
tokens of a canonical text: the others are read, as an expression that is not alike. -/
theorem text_parentheses_needed {e : Expr} (well : e.WellFormed) :
    ∃ tokens, Token.scan e.text = .ok tokens ∧
      ∀ front opening inside closing behind, tokens = front ++ opening :: (inside ++ closing :: behind) →
        opening.lexeme = .openParen → closing.lexeme = .closeParen →
        Groups (front.map Token.lexeme) (inside.map Token.lexeme) →
        ∃ formula, Formula.ofTokens none (front ++ (inside ++ behind)) = .ok formula ∧ ¬ formula.expr.Alike e := by
  have printed : Derives e.lexemes (.expression e.reread) := e.derives_lexemes
  obtain ⟨tokens, scanned, lexemes⟩ := scan_canonical (spelled_lexemes e well) printed.apart
  refine ⟨tokens, scanned, ?_⟩
  rintro front opening inside closing behind rfl opens closes groups
  simp only [List.map_append, List.map_cons, opens, closes] at lexemes
  -- the end of the text lies behind the pair
  obtain ⟨rest, ends, split⟩ := printed.matched.pair_snoc groups.1 lexemes.symm
  obtain ⟨e', derives⟩ := printed.ungrouped split groups
  have plain : ∀ l ∈ front.map Token.lexeme ++ (inside.map Token.lexeme ++ rest), l ≠ .finish := by
    rintro _ mem rfl
    have inText : Lexeme.finish ∈ e.lexemes := by
      rw [split]
      simp only [List.mem_append, List.mem_cons] at mem ⊢
      tauto
    exact spelled_lexemes e well _ inText
  have kept : kinds (front ++ (inside ++ behind)) = front.map Token.lexeme ++ (inside.map Token.lexeme ++ rest) := by
    refine kinds_eq ?_ plain
    simp only [List.map_append, ends, List.append_assoc]
  rw [← kept] at derives
  refine ⟨⟨e', e'.gather .none⟩, Formula.ofTokens_eq_ok_iff.mpr ⟨derives, rfl⟩, fun alike => ?_⟩
  have fewest : opensIn e'.lexemes ≤ _ := opensIn_lexemes_le (printsFewest_of_derives derives)
  rw [alike.lexemes_eq, kept, split] at fewest
  simp only [opensIn_append, opensIn_openParen, opensIn_closeParen] at fewest
  omega

/-- Without the inner parentheses, which are not the call's, the comparison ends before the disjunction. -/
theorem text_parentheses_needed_argument :
    let e : Expr := .call "f" [.compare .equal (.field "a") (.connect .or (.field "b") (.field "c"))]
    e.WellFormed ∧ e.text = "f(a == (b or c))" ∧
      ∃ formula, Formula.ofTokens none
          [⟨.name "f", 0, 1, 1, 1⟩, ⟨.openParen, 1, 2, 1, 2⟩, ⟨.name "a", 2, 3, 1, 3⟩,
            ⟨.comparison .equal, 4, 6, 1, 5⟩, ⟨.name "b", 8, 9, 1, 9⟩, ⟨.connective .or, 10, 12, 1, 11⟩,
            ⟨.name "c", 13, 14, 1, 14⟩, ⟨.closeParen, 15, 16, 1, 16⟩, ⟨.finish, 16, 16, 1, 17⟩] = .ok formula ∧
        ¬ formula.expr.Alike e := by
  intro e
  have parsed : Formula.parse "f(a == (b or c))" = .ok ⟨e, e.gather .none⟩ := by cbv
  have well : e.WellFormed := wellFormed_of_parse parsed
  have printed : e.text = "f(a == (b or c))" := by cbv
  obtain ⟨tokens, scanned, needed⟩ := text_parentheses_needed well
  have tokens_eq : Token.scan e.text = .ok
      [⟨.name "f", 0, 1, 1, 1⟩, ⟨.openParen, 1, 2, 1, 2⟩, ⟨.name "a", 2, 3, 1, 3⟩,
        ⟨.comparison .equal, 4, 6, 1, 5⟩, ⟨.openParen, 7, 8, 1, 8⟩, ⟨.name "b", 8, 9, 1, 9⟩,
        ⟨.connective .or, 10, 12, 1, 11⟩, ⟨.name "c", 13, 14, 1, 14⟩, ⟨.closeParen, 14, 15, 1, 15⟩,
        ⟨.closeParen, 15, 16, 1, 16⟩, ⟨.finish, 16, 16, 1, 17⟩] := by
    rw [printed]
    cbv
  cases tokens_eq.symm.trans scanned
  have groups : Groups [.name "f", .openParen, .name "a", .comparison .equal]
      [.name "b", .connective .or, .name "c"] := by
    refine ⟨by decide, fun function last => ?_⟩
    cases last
  exact ⟨well, printed, needed [_, _, _, _] _ [_, _, _] _ _ rfl rfl rfl groups⟩

end RecordRules
