/-
# The grammar of expressions

What a list of lexemes spells, said by rules and without a machine:

    expression  := conjunction (or conjunction)*
    conjunction := relation (and relation)*
    relation    := operand (comparison operand)*
    operand     := ( expression ) | [ list ] | literal | name | name ( list )
    list        := nothing | expression (, expression)*

The first three lines are one rule at three levels, each with its operators and with
the level below as its part. `Derives ls phrase` reads "the lexemes `ls` are such a
phrase", and the phrase carries its tree. A starred part carries its operators and
right sides; the phrase around it folds them over the first part, so a chain of one
level nests to the left. Parentheses leave no node. A name is a field unless a
parenthesis follows it, for no rule puts an opening parenthesis behind a complete
operand.

The rules grow a phrase at its left end, and a reader that joins what it has with
what comes next grows it at its right end; the `snoc` lemmas say that the grammar
allows both.

What is said of single lexemes can often be said of single nodes as well, that names are
names or that numbers are finite. Then all lexemes of a phrase meet the one condition exactly
if all nodes of its trees meet the other (`Matches.everywhere_iff`).

Key definitions: `Level`, `Operator`, `Phrase`, `Derives`, `Matches`. Key theorems:
`Derives.chain_snoc`, `Derives.list_snoc`, `Derives.calls`, `Matches.everywhere_iff`.
-/
import RecordRules.Formula.Parse
import RecordRules.Proofs.Names

namespace RecordRules

/-- The literal that a lexeme stands for. -/
def Literal.ofLexeme? : Lexeme → Option Literal
  | .string s => some (.string s)
  | .number digits => some (.number (Parse.State.numberOf digits))
  | .boolean b => some (.bool b)
  | .null => some .null
  | _ => none

/-! ### Levels -/

/-- The levels at which operators chain, from the tightest. -/
inductive Level where
  | relation
  | conjunction
  | expression
deriving DecidableEq

/-- An operator between two operands. -/
inductive Operator where
  | comparison (op : Comparison)
  | connective (op : Connective)

namespace Operator

/-- The operator as it is read. -/
def lexeme : Operator → Lexeme
  | comparison op => .comparison op
  | connective op => .connective op

/-- The level of the chains that the operator makes. -/
def level : Operator → Level
  | comparison _ => .relation
  | connective .and => .conjunction
  | connective .or => .expression

/-- The tree of the operator and its two sides. -/
def join (left : Expr) : Operator → Expr → Expr
  | comparison op, right => .compare op left right
  | connective op, right => .connect op left right

/-- The tree of a chain, nested to the left. -/
def joinAll (first : Expr) (rights : List (Operator × Expr)) : Expr :=
  rights.foldl (fun left right => join left right.1 right.2) first

end Operator

/-! ### Derivations -/

/-- A phrase of the grammar with its tree, or the trees of its parts. -/
inductive Phrase where
  /-- `part (operator part)*` -/
  | chain (level : Level) (e : Expr)
  /-- `(operator part)*` -/
  | rights (level : Level) (rights : List (Operator × Expr))
  /-- A group, an array, a literal, a field or a call. -/
  | operand (e : Expr)
  /-- Nothing, or `expression (, expression)*`. -/
  | list (items : List Expr)
  /-- `(, expression)*` -/
  | items (items : List Expr)

/-- What the operators of the level stand between. -/
def Level.part : Level → Expr → Phrase
  | relation, e => .operand e
  | conjunction, e => .chain .relation e
  | expression, e => .chain .conjunction e

/-- An expression with that tree. -/
abbrev Phrase.expression (e : Expr) : Phrase := .chain .expression e

/-- The lexemes are that phrase. -/
inductive Derives : List Lexeme → Phrase → Prop where
  | literal {l value} : Literal.ofLexeme? l = some value → Derives [l] (.operand (.literal value))
  | field {path} : Derives [.name path] (.operand (.field path))
  | call {function ls args} : Derives ls (.list args) →
      Derives (.name function :: .openParen :: (ls ++ [.closeParen])) (.operand (.call function args))
  | group {ls e} : Derives ls (.expression e) →
      Derives (.openParen :: (ls ++ [.closeParen])) (.operand e)
  | array {ls items} : Derives ls (.list items) →
      Derives (.openBracket :: (ls ++ [.closeBracket])) (.operand (.array items))
  | noItem : Derives [] (.list [])
  | someItems {ls ms e es} : Derives ls (.expression e) → Derives ms (.items es) →
      Derives (ls ++ ms) (.list (e :: es))
  | itemsEnd : Derives [] (.items [])
  | itemsMore {ls ms e es} : Derives ls (.expression e) → Derives ms (.items es) →
      Derives (.comma :: (ls ++ ms)) (.items (e :: es))
  | chain {level ls ms e rights} : Derives ls (level.part e) → Derives ms (.rights level rights) →
      Derives (ls ++ ms) (.chain level (Operator.joinAll e rights))
  | rightsEnd {level} : Derives [] (.rights level [])
  | rightsMore {op : Operator} {level ls ms e rights} : op.level = level →
      Derives ls (level.part e) → Derives ms (.rights level rights) →
      Derives (op.lexeme :: (ls ++ ms)) (.rights level ((op, e) :: rights))

namespace Derives

variable {ls ms : List Lexeme} {level : Level} {e e' : Expr}

/-- A part is a chain without operators. -/
theorem chain_of_part (h : Derives ls (level.part e)) : Derives ls (.chain level e) := by
  have := chain h rightsEnd
  rwa [List.append_nil] at this

/-! ### Growth at the right end -/

theorem rights_snoc {op : Operator} {rights : List (Operator × Expr)}
    (h : Derives ls (.rights level rights)) (hop : op.level = level)
    (right : Derives ms (level.part e)) :
    Derives (ls ++ op.lexeme :: ms) (.rights level (rights ++ [(op, e)])) := by
  generalize hp : Phrase.rights level rights = phrase at h
  induction h generalizing rights with
  | rightsEnd =>
    cases hp
    have := rightsMore hop right rightsEnd
    rwa [List.append_nil] at this
  | rightsMore hop' first _ _ ih =>
    cases hp
    have := rightsMore hop' first (ih rfl)
    rwa [← List.append_assoc] at this
  | _ => cases hp

/-- **Chains grow to the right.** A chain, an operator of its level and a part are the chain
whose last step joins the two. -/
theorem chain_snoc {op : Operator} (h : Derives ls (.chain level e)) (hop : op.level = level)
    (right : Derives ms (level.part e')) :
    Derives (ls ++ op.lexeme :: ms) (.chain level (Operator.join e op e')) := by
  cases h with
  | @chain _ first more left rights hleft hrights =>
    have := chain hleft (rights_snoc hrights hop right)
    rwa [Operator.joinAll, List.foldl_append, ← List.append_assoc] at this

theorem items_snoc {es : List Expr} (h : Derives ls (.items es)) (last : Derives ms (.expression e)) :
    Derives (ls ++ .comma :: ms) (.items (es ++ [e])) := by
  generalize hp : Phrase.items es = phrase at h
  induction h generalizing es with
  | itemsEnd =>
    cases hp
    have := itemsMore last itemsEnd
    rwa [List.append_nil] at this
  | itemsMore first _ _ ih =>
    cases hp
    have := itemsMore first (ih rfl)
    rwa [← List.append_assoc] at this
  | _ => cases hp

/-- **Lists grow to the right.** A list that is not empty, a comma and an expression are the list
with one more item. -/
theorem list_snoc {es : List Expr} (h : Derives ls (.list es)) (hne : es ≠ [])
    (last : Derives ms (.expression e)) : Derives (ls ++ .comma :: ms) (.list (es ++ [e])) := by
  cases h with
  | noItem => exact absurd rfl hne
  | someItems first more =>
    have := someItems first (items_snoc more last)
    rwa [← List.append_assoc] at this

theorem list_single (h : Derives ls (.expression e)) : Derives ls (.list [e]) := by
  have := someItems h itemsEnd
  rwa [List.append_nil] at this

end Derives

/-! ### What comes behind an operand -/

/-- How tightly the operators of a level bind. -/
def Level.rank : Level → Nat
  | relation => 3
  | conjunction => 2
  | expression => 1

theorem Level.rank_lt (level : Level) : level.rank < 4 := by
  cases level <;> decide

/-- How tightly a lexeme binds to an operand before it; 0 if it ends an expression. An opening
parenthesis binds tightest, as it makes a call of a name. -/
def Lexeme.grip : Lexeme → Nat
  | openParen => 5
  | comparison _ => 3
  | connective .and => 2
  | connective .or => 1
  | _ => 0

theorem Operator.grip_lexeme (op : Operator) : op.lexeme.grip = op.level.rank := by
  rcases op with op | op | op <;> rfl

/-- The first lexeme, if there is one, binds no tighter than that. -/
def Loosens (rank : Nat) (ls : List Lexeme) : Prop := ∀ l ∈ ls.head?, l.grip ≤ rank

theorem Loosens.mono {r r' : Nat} {ls : List Lexeme} (h : Loosens r ls) (hr : r ≤ r') : Loosens r' ls :=
  fun l hl => Nat.le_trans (h l hl) hr

theorem Loosens.append {r : Nat} {ls ms : List Lexeme} (h : Loosens r ls) (h' : Loosens r ms) :
    Loosens r (ls ++ ms) := by
  cases ls with
  | nil => exact h'
  | cons => exact h

theorem Derives.loosens_rights {ls : List Lexeme} {level : Level} {rights : List (Operator × Expr)}
    (h : Derives ls (.rights level rights)) : Loosens level.rank ls := by
  cases h with
  | rightsEnd => nofun
  | @rightsMore op _ _ _ _ _ hop =>
    rintro _ ⟨⟩
    exact Nat.le_of_eq (hop ▸ op.grip_lexeme)

theorem Derives.loosens_items {ls : List Lexeme} {items : List Expr} (h : Derives ls (.items items)) :
    Loosens 0 ls := by
  cases h with
  | itemsEnd => nofun
  | itemsMore =>
    rintro _ ⟨⟩
    exact Nat.le_refl 0

/-! ### The names of a chain -/

theorem gather_join (names : Names) (op : Operator) (left right : Expr) :
    (op.join left right).gather names = right.gather (left.gather names) := by
  cases op <;> rfl

theorem gather_joinAll (names : Names) (first : Expr) (rights : List (Operator × Expr)) :
    (Operator.joinAll first rights).gather names =
      Expr.gatherList (first.gather names) (rights.map Prod.snd) := by
  induction rights generalizing first with
  | nil => rfl
  | cons right rights ih =>
    have := ih (right.1.join first right.2)
    rwa [gather_join] at this

/-! ### Names before parentheses -/

/-- The trees that a phrase holds. -/
def Phrase.trees : Phrase → List Expr
  | .operand e | .chain _ e => [e]
  | .rights _ parts => parts.map Prod.snd
  | .list es | .items es => es

/-- Somewhere in the lexemes the name stands right before an opening parenthesis. -/
def OpensCall (function : String) (ls : List Lexeme) : Prop := [.name function, .openParen] <:+: ls

theorem opensCall_cons {function : String} {l : Lexeme} {ls : List Lexeme} :
    OpensCall function (l :: ls) ↔
      (l = .name function ∧ ls.head? = some .openParen) ∨ OpensCall function ls := by
  unfold OpensCall
  rw [List.infix_cons_iff, List.cons_prefix_cons, eq_comm]
  cases ls with
  | nil => simp
  | cons m ls =>
    simp only [List.cons_prefix_cons, List.nil_prefix, and_true, List.head?_cons, Option.some.injEq, eq_comm]

theorem OpensCall.of_append {function : String} {ls ms : List Lexeme} (hms : Loosens 4 ms)
    (h : OpensCall function (ls ++ ms)) : OpensCall function ls ∨ OpensCall function ms := by
  induction ls with
  | nil => exact .inr h
  | cons l ls ih =>
    rw [List.cons_append, opensCall_cons] at h
    rcases h with ⟨hl, hopen⟩ | h
    · cases ls with
      | nil => exact absurd (hms _ hopen) (by decide)
      | cons => exact .inl (opensCall_cons.mpr (.inl ⟨hl, hopen⟩))
    · exact (ih h).imp_left fun h => opensCall_cons.mpr (.inr h)

theorem not_opensCall_single {function : String} {l : Lexeme} : ¬ OpensCall function [l] := by
  rw [opensCall_cons]
  rintro (⟨_, ⟨⟩⟩ | h)
  exact absurd h.length_le (Nat.not_succ_le_zero 1)

theorem calls_joinAll {function : String} {e : Expr} {rights : List (Operator × Expr)} :
    (Operator.joinAll e rights).Calls function ↔
      e.Calls function ∨ ∃ right ∈ rights.map Prod.snd, right.Calls function := by
  have gathered := @Expr.mem_gather_functions function .none (Operator.joinAll e rights)
  rw [gather_joinAll, Expr.mem_gatherList_functions, Expr.mem_gather_functions] at gathered
  simpa only [Names.none, NameSet.not_mem_empty, false_or] using gathered.symm

/-- The closing bracket opens no call. -/
theorem OpensCall.of_close {function : String} {ls : List Lexeme} {l : Lexeme} (hl : l.grip ≤ 4)
    (h : OpensCall function (ls ++ [l])) : OpensCall function ls := by
  refine (h.of_append ?_).resolve_right not_opensCall_single
  rintro _ ⟨⟩
  exact hl

/-- The call is in the first phrase or in those behind it. -/
theorem OpensCall.calls_cons {function : String} {ls ms : List Lexeme} {e : Expr} {es : List Expr}
    (h : OpensCall function (ls ++ ms)) (hms : Loosens 4 ms)
    (first : OpensCall function ls → ∃ x ∈ [e], x.Calls function)
    (more : OpensCall function ms → ∃ x ∈ es, x.Calls function) : ∃ x ∈ e :: es, x.Calls function := by
  rcases h.of_append hms with h | h
  · obtain ⟨x, hx, calls⟩ := first h
    exact ⟨x, List.mem_cons.mpr (.inl (List.mem_singleton.mp hx)), calls⟩
  · obtain ⟨x, hx, calls⟩ := more h
    exact ⟨x, List.mem_cons_of_mem e hx, calls⟩

theorem Phrase.trees_part (level : Level) (e : Expr) : (level.part e).trees = [e] := by
  cases level <;> rfl

/-- A name right before an opening parenthesis is called. -/
theorem Derives.calls {ls : List Lexeme} {phrase : Phrase} {function : String} (h : Derives ls phrase)
    (hopen : OpensCall function ls) : ∃ e ∈ phrase.trees, e.Calls function := by
  induction h with
  | literal | field => exact absurd hopen not_opensCall_single
  | noItem | itemsEnd | rightsEnd => exact absurd hopen.length_le (Nat.not_succ_le_zero 1)
  | @call other ls args _ ih =>
    refine ⟨_, List.mem_singleton_self _, Expr.calls_call_iff.mpr ?_⟩
    rcases opensCall_cons.mp hopen with ⟨⟨⟩, _⟩ | hopen
    · exact .inr rfl
    · rcases opensCall_cons.mp hopen with ⟨⟨⟩, _⟩ | hopen
      exact .inl (ih (OpensCall.of_close (by decide) hopen))
  | group _ ih =>
    rcases opensCall_cons.mp hopen with ⟨⟨⟩, _⟩ | hopen
    exact ih (OpensCall.of_close (by decide) hopen)
  | array _ ih =>
    refine ⟨_, List.mem_singleton_self _, Expr.calls_array_iff.mpr ?_⟩
    rcases opensCall_cons.mp hopen with ⟨⟨⟩, _⟩ | hopen
    exact ih (OpensCall.of_close (by decide) hopen)
  | someItems _ more ihFirst ihMore =>
    exact hopen.calls_cons (more.loosens_items.mono (Nat.zero_le 4)) ihFirst ihMore
  | itemsMore _ more ihFirst ihMore =>
    rcases opensCall_cons.mp hopen with ⟨⟨⟩, _⟩ | hopen
    exact hopen.calls_cons (more.loosens_items.mono (Nat.zero_le 4)) ihFirst ihMore
  | @chain level _ _ e _ _ more ihFirst ihMore =>
    rw [Phrase.trees_part] at ihFirst
    refine ⟨_, List.mem_singleton_self _, calls_joinAll.mpr ?_⟩
    have := hopen.calls_cons (more.loosens_rights.mono (Nat.le_of_lt level.rank_lt)) ihFirst ihMore
    simpa only [Phrase.trees, List.mem_cons, exists_eq_or_imp] using this
  | @rightsMore op level _ _ e _ _ _ more ihFirst ihMore =>
    rw [Phrase.trees_part] at ihFirst
    rcases opensCall_cons.mp hopen with ⟨hop, _⟩ | hopen
    · cases op <;> cases hop
    · exact hopen.calls_cons (more.loosens_rights.mono (Nat.le_of_lt level.rank_lt)) ihFirst ihMore

/-! ### What holds of all lexemes and all nodes -/

/-- A condition on lexemes says of a literal or a name what a condition on nodes says of the node that it
makes. Of other lexemes and other nodes both say nothing. -/
structure Matches (Q : Lexeme → Prop) (P : Expr → Prop) : Prop where
  literal {l value} : Literal.ofLexeme? l = some value → (Q l ↔ P (.literal value))
  field (path) : Q (.name path) ↔ P (.field path)
  call (function args) : Q (.name function) ↔ P (.call function args)
  array (items) : P (.array items)
  join (op : Operator) (left right) : P (op.join left right)
  plain {l} : Literal.ofLexeme? l = none → (∀ name, l ≠ .name name) → Q l

namespace Matches

variable {Q : Lexeme → Prop} {P : Expr → Prop} {ls : List Lexeme} {l : Lexeme}

theorem everywhere_join (h : Matches Q P) {op : Operator} {left right : Expr} :
    (op.join left right).Everywhere P ↔ left.Everywhere P ∧ right.Everywhere P := by
  have here := h.join op left right
  cases op with
  | comparison => exact Expr.everywhere_compare.trans (and_iff_right here)
  | connective => exact Expr.everywhere_connect.trans (and_iff_right here)

theorem everywhere_joinAll (h : Matches Q P) {e : Expr} {rights : List (Operator × Expr)} :
    (Operator.joinAll e rights).Everywhere P ↔
      e.Everywhere P ∧ ∀ right ∈ rights.map Prod.snd, right.Everywhere P := by
  induction rights generalizing e with
  | nil => simp [Operator.joinAll]
  | cons right rights ih =>
    show (Operator.joinAll (right.1.join e right.2) rights).Everywhere P ↔ _
    rw [ih, h.everywhere_join, List.map_cons, List.forall_mem_cons, and_assoc]

theorem forall_between (opens : Q l) {close : Lexeme} (closes : Q close) :
    (∀ m ∈ l :: (ls ++ [close]), Q m) ↔ ∀ m ∈ ls, Q m := by
  rw [List.forall_mem_cons, List.forall_mem_append, List.forall_mem_singleton]
  exact (and_iff_right opens).trans (and_iff_left closes)

/-- **From the lexemes to the tree.** All lexemes of a phrase meet the one condition exactly if all nodes of
its trees meet the other. -/
theorem everywhere_iff (h : Matches Q P) {phrase : Phrase} (derives : Derives ls phrase) :
    (∀ l ∈ ls, Q l) ↔ ∀ e ∈ phrase.trees, e.Everywhere P := by
  have openParen : Q .openParen := h.plain rfl nofun
  have closeParen : Q .closeParen := h.plain rfl nofun
  have openBracket : Q .openBracket := h.plain rfl nofun
  have closeBracket : Q .closeBracket := h.plain rfl nofun
  have comma : Q .comma := h.plain rfl nofun
  induction derives with
  | literal read =>
    rw [List.forall_mem_singleton, Phrase.trees, List.forall_mem_singleton, Expr.everywhere_literal]
    exact h.literal read
  | field =>
    rw [List.forall_mem_singleton, Phrase.trees, List.forall_mem_singleton, Expr.everywhere_field]
    exact h.field _
  | @call function ls args _ ih =>
    have inside : (∀ l ∈ ls, Q l) ↔ ∀ e ∈ args, e.Everywhere P := ih
    rw [List.forall_mem_cons, forall_between openParen closeParen, inside, h.call function args, Phrase.trees,
      List.forall_mem_singleton, Expr.everywhere_call]
  | group _ ih => exact (forall_between openParen closeParen).trans ih
  | @array ls items _ ih =>
    have inside : (∀ l ∈ ls, Q l) ↔ ∀ e ∈ items, e.Everywhere P := ih
    rw [forall_between openBracket closeBracket, inside, Phrase.trees, List.forall_mem_singleton,
      Expr.everywhere_array]
    exact (and_iff_right (h.array items)).symm
  | noItem | itemsEnd | rightsEnd => exact iff_of_true nofun nofun
  | @someItems ls ms e es _ _ ihFirst ihMore =>
    have first : (∀ l ∈ ls, Q l) ↔ e.Everywhere P := ihFirst.trans List.forall_mem_singleton
    have more : (∀ l ∈ ms, Q l) ↔ ∀ e ∈ es, e.Everywhere P := ihMore
    rw [List.forall_mem_append, first, more, Phrase.trees, List.forall_mem_cons]
  | @itemsMore ls ms e es _ _ ihFirst ihMore =>
    have first : (∀ l ∈ ls, Q l) ↔ e.Everywhere P := ihFirst.trans List.forall_mem_singleton
    have more : (∀ l ∈ ms, Q l) ↔ ∀ e ∈ es, e.Everywhere P := ihMore
    rw [List.forall_mem_cons, List.forall_mem_append, first, more, Phrase.trees, List.forall_mem_cons]
    exact and_iff_right comma
  | @chain level ls ms e rights _ _ ihFirst ihMore =>
    rw [Phrase.trees_part] at ihFirst
    have first : (∀ l ∈ ls, Q l) ↔ e.Everywhere P := ihFirst.trans List.forall_mem_singleton
    have more : (∀ l ∈ ms, Q l) ↔ ∀ e ∈ rights.map Prod.snd, e.Everywhere P := ihMore
    rw [List.forall_mem_append, first, more, Phrase.trees, List.forall_mem_singleton, h.everywhere_joinAll]
  | @rightsMore op level ls ms e rights _ _ _ ihFirst ihMore =>
    rw [Phrase.trees_part] at ihFirst
    have operator : Q op.lexeme := by cases op <;> exact h.plain rfl nofun
    have first : (∀ l ∈ ls, Q l) ↔ e.Everywhere P := ihFirst.trans List.forall_mem_singleton
    have more : (∀ l ∈ ms, Q l) ↔ ∀ e ∈ rights.map Prod.snd, e.Everywhere P := ihMore
    rw [List.forall_mem_cons, List.forall_mem_append, first, more, Phrase.trees, List.map_cons,
      List.forall_mem_cons]
    exact and_iff_right operator

end Matches
end RecordRules
