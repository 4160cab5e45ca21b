/-
# The machine reads the grammar

The machine that reads formulas holds a state between two lexemes and never looks
back or ahead. It accepts exactly the lexemes that the grammar derives an expression
from, with the tree of the derivation, so the tree is the only one the grammar allows;
and the names it has gathered on the way are those of the tree.

A derivation tells the machine what to do (`readsPhrase_of_derives`): where an
operand must come, it reads the lexemes of a phrase as the tree of the phrase,
whatever comes behind them that does not bind tighter. What a state has read can be
told from the state (`Spells`): chains that wait for a right side, open brackets and
the items in them. Each step keeps this (`spells_advance`), so an accepted run has a
derivation behind it (`derives_of_read?`).

Key definitions: `Parse.State.read?`, `ReadsPhrase`, `Spells`. Key theorems:
`Formula.ofTokens_eq_ok_iff`, `ofTokens_iff_derives`.
-/
import RecordRules.Proofs.Grammar

namespace RecordRules

namespace Parse

/-! ### What waits for a right side -/

namespace Pending

/-- What waits at a level for its right side. -/
def waiting (p : Pending) : Level → Option (Expr × Operator)
  | .relation => p.related.map fun w => (w.1, .comparison w.2)
  | .conjunction => p.conjunct.map fun left => (left, .connective .and)
  | .expression => p.disjunct.map fun left => (left, .connective .or)

/-- An operator follows the operand. -/
def wait (p : Pending) (operand : Expr) : Operator → Pending
  | .comparison op => p.compare operand op
  | .connective op => p.connect operand op

/-- Nothing waits at a level of that rank or a higher one. -/
def ClearFrom (p : Pending) (rank : Nat) : Prop :=
  ∀ level : Level, rank ≤ level.rank → p.waiting level = .none

theorem none_clearFrom (rank : Nat) : Pending.none.ClearFrom rank := by
  rintro (_ | _ | _) _ <;> rfl

variable {p : Pending} {op : Operator} {left e : Expr}

theorem wait_clearFrom (h : p.ClearFrom op.level.rank) : (p.wait left op).ClearFrom (op.level.rank + 1) := by
  rcases op with op | op | op <;> rintro (_ | _ | _) hr <;>
    simp_all [Operator.level, Level.rank, wait, connect, waiting, ClearFrom]

/-- An operand on the right of an operator closes what waits as the two joined do. -/
theorem expression_wait (h : p.ClearFrom op.level.rank) :
    (p.wait left op).expression e = p.expression (op.join left e) := by
  have related := h .relation
  have conjunct := h .conjunction
  have disjunct := h .expression
  rcases p with ⟨d, c, r⟩
  rcases op with op | op | op <;>
    simp_all [Operator.level, Level.rank, wait, compare, connect, waiting, expression, conjunction,
      relation, Operator.join]

/-- Behind an operand on the right of an operator, one that binds no tighter waits as behind the two
joined. -/
theorem wait_wait {next : Operator} (h : p.ClearFrom op.level.rank) (hl : next.level.rank ≤ op.level.rank) :
    (p.wait left op).wait e next = p.wait (op.join left e) next := by
  have related := h .relation
  have conjunct := h .conjunction
  have disjunct := h .expression
  rcases p with ⟨d, c, r⟩
  rcases op with op | op | op <;> rcases next with next | next | next <;>
    simp_all [Operator.level, Level.rank, wait, compare, connect, waiting, expression, conjunction,
      relation, Operator.join]

end Pending

/-! ### Brackets that hold lists -/

/-- A bracket that holds a list: an array, or the arguments of a function. -/
inductive Enclosure where
  | array
  | arguments (function : String)

namespace Enclosure

/-- The open bracket, with the items read so far, the last one first. -/
def frame (outer : Pending) (read : List Expr) : Enclosure → Frame
  | array => .array outer read
  | arguments function => .arguments outer function read

/-- What opens the bracket. -/
def opening : Enclosure → List Lexeme
  | array => [.openBracket]
  | arguments function => [.name function, .openParen]

/-- What closes the bracket. -/
def close : Enclosure → Lexeme
  | array => .closeBracket
  | arguments _ => .closeParen

/-- The tree of the bracket and its items. -/
def tree (items : List Expr) : Enclosure → Expr
  | array => .array items
  | arguments function => .call function items

/-- The names once the bracket closes, those of its items being gathered. -/
def named (names : Names) (items : List Expr) : Enclosure → Names
  | array => names
  | arguments function => names.withCall function items

theorem gather_tree (b : Enclosure) (names : Names) (items : List Expr) :
    (b.tree items).gather names = b.named (Expr.gatherList names items) items := by
  cases b <;> rfl

theorem derives_tree (b : Enclosure) {ls : List Lexeme} {items : List Expr} (h : Derives ls (.list items)) :
    Derives (b.opening ++ (ls ++ [b.close])) (.operand (b.tree items)) := by
  cases b with
  | array => exact .array h
  | arguments => exact .call h

theorem loosens_close (b : Enclosure) (rank : Nat) (rest : List Lexeme) : Loosens rank (b.close :: rest) := by
  cases b <;> rintro _ ⟨⟩ <;> exact Nat.zero_le _

end Enclosure

namespace State

/-- The formula that the state and the lexemes after it make, places aside. -/
def read? (s : State) : List Lexeme → Option Formula
  | [] => s.formula?
  | l :: rest => (s.advance l).bind fun next => next.read? rest

/-! ### What a derivation makes the machine do -/

variable {fs : List Frame} {p : Pending} {ns : Names} {e left : Expr} {rest ls : List Lexeme} {op : Operator}

theorem stepOperand_operator (s : State) (e : Expr) (op : Operator) :
    s.stepOperand e op.lexeme = some { s with pending := s.pending.wait e op, phase := .expecting } := by
  cases op <;> rfl

theorem read?_operator :
    read? ⟨fs, p, .operand e, ns⟩ (op.lexeme :: rest) = read? ⟨fs, p.wait e op, .expecting, ns⟩ rest := by
  cases op <;> rfl

/-- A complete operand on the right of an operator counts as one operand with it, if what comes next
binds no tighter than the operator. -/
theorem stepOperand_join {l : Lexeme} (h : p.ClearFrom op.level.rank) (hl : l.grip ≤ op.level.rank) :
    stepOperand ⟨fs, p.wait left op, .operand e, ns⟩ e l =
      stepOperand ⟨fs, p, .operand (op.join left e), ns⟩ (op.join left e) l := by
  have closing : (p.wait left op).expression e = p.expression (op.join left e) := Pending.expression_wait h
  have waiting (next : Operator) (hn : next.lexeme = l) :
      stepOperand ⟨fs, p.wait left op, .operand e, ns⟩ e l =
        stepOperand ⟨fs, p, .operand (op.join left e), ns⟩ (op.join left e) l := by
    subst hn
    rw [Operator.grip_lexeme] at hl
    simp only [stepOperand_operator, Pending.wait_wait h hl]
  cases l with
  | comparison c => exact waiting (.comparison c) rfl
  | connective c => exact waiting (.connective c) rfl
  | comma => simp only [stepOperand, closing, following]
  | closeParen => simp only [stepOperand, closing, closed, closedCall]
  | closeBracket => simp only [stepOperand, closing, closed]
  | _ => rfl

theorem read?_join (h : p.ClearFrom op.level.rank) (hrest : Loosens op.level.rank rest) :
    read? ⟨fs, p.wait left op, .operand e, ns⟩ rest =
      read? ⟨fs, p, .operand (op.join left e), ns⟩ rest := by
  cases rest with
  | nil => cases fs <;> simp only [read?, formula?, settled, Pending.expression_wait h]
  | cons l rest =>
    simp only [read?, advance, stepOperand_join h (hrest l rfl)]

/-- A bracket closes behind its last item. -/
theorem read?_close (b : Enclosure) (outer : Pending) (read : List Expr) :
    read? ⟨b.frame outer read :: fs, .none, .operand e, ns⟩ (b.close :: rest) =
      read? ⟨fs, outer, .operand (b.tree (read.reverse ++ [e])), b.named ns (read.reverse ++ [e])⟩ rest := by
  rw [← List.reverse_cons]
  cases b <;> rfl

/-- A comma keeps the item and makes room for the next. -/
theorem read?_comma (b : Enclosure) (outer : Pending) (read : List Expr) :
    read? ⟨b.frame outer read :: fs, .none, .operand e, ns⟩ (.comma :: rest) =
      read? ⟨b.frame outer (e :: read) :: fs, .none, .expecting, ns⟩ rest := by
  cases b <;> rfl

/-- Where an operand must come, the machine reads the lexemes as the tree, if nothing waits at that
rank or a higher one and what comes next binds no tighter. -/
def Reads (rank : Nat) (ls : List Lexeme) (e : Expr) : Prop :=
  ∀ fs p ns rest, Pending.ClearFrom p rank → Loosens rank rest →
    read? ⟨fs, p, .expecting, ns⟩ (ls ++ rest) = read? ⟨fs, p, .operand e, e.gather ns⟩ rest

/-- How the machine reads the lexemes of a phrase. -/
def ReadsPhrase (ls : List Lexeme) : Phrase → Prop
  | .operand e => Reads 4 ls e
  | .chain level e => Reads level.rank ls e
  | .rights level rights =>
    ∀ fs p left ns rest, Pending.ClearFrom p level.rank → Loosens level.rank rest →
      read? ⟨fs, p, .operand left, ns⟩ (ls ++ rest) =
        read? ⟨fs, p, .operand (Operator.joinAll left rights),
          Expr.gatherList ns (rights.map Prod.snd)⟩ rest
  | .list items => ∀ (b : Enclosure) fs outer ns rest,
      read? ⟨b.frame outer [] :: fs, .none, .expecting, ns⟩ (ls ++ b.close :: rest) =
        read? ⟨fs, outer, .operand (b.tree items), (b.tree items).gather ns⟩ rest
  | .items items => ∀ (b : Enclosure) fs outer read e ns rest,
      read? ⟨b.frame outer read :: fs, .none, .operand e, ns⟩ (ls ++ b.close :: rest) =
        read? ⟨fs, outer, .operand (b.tree (read.reverse ++ e :: items)),
          b.named (Expr.gatherList ns items) (read.reverse ++ e :: items)⟩ rest

theorem reads_part {level : Level} (h : ReadsPhrase ls (level.part e)) : Reads (level.rank + 1) ls e := by
  cases level <;> exact h

/-- **A derivation is read.** One case for each rule of the grammar. -/
theorem readsPhrase_of_derives {phrase : Phrase} (h : Derives ls phrase) : ReadsPhrase ls phrase := by
  induction h with
  | @literal l value h =>
    intro fs p ns rest _ _
    cases l <;> cases h <;> rfl
  | field =>
    -- the name becomes a field at the next lexeme, or at the end
    intro fs p ns rest _ hrest
    cases rest with
    | nil => rfl
    | cons l rest =>
      have hl : l ≠ .openParen := by
        rintro rfl
        exact absurd (hrest _ rfl) (by decide)
      simp only [List.cons_append, List.nil_append, read?, advance, stepExpecting, Option.bind_some, if_neg hl]
      rfl
  | @call function ls args _ ih =>
    intro fs p ns rest _ _
    rw [List.cons_append, List.cons_append, List.append_assoc]
    exact ih (.arguments function) fs p ns rest
  | @group ls e _ ih =>
    intro fs p ns rest _ _
    rw [List.cons_append, List.append_assoc]
    have closing : Loosens 1 (.closeParen :: rest) := Enclosure.loosens_close (.arguments "") 1 rest
    exact ih (.group p :: fs) .none ns _ (Pending.none_clearFrom 1) closing
  | array _ ih =>
    intro fs p ns rest _ _
    rw [List.cons_append, List.append_assoc]
    exact ih .array fs p ns rest
  | noItem =>
    intro b fs outer ns rest
    cases b <;> rfl
  | @someItems ls ms e es _ more ihFirst ihMore =>
    intro b fs outer ns rest
    have next : Loosens 1 (ms ++ b.close :: rest) :=
      (more.loosens_items.mono (Nat.zero_le 1)).append (b.loosens_close 1 rest)
    have first := ihFirst (b.frame outer [] :: fs) .none ns _ (Pending.none_clearFrom 1) next
    rw [List.append_assoc, first, ihMore, Enclosure.gather_tree]
    rfl
  | itemsEnd => exact fun b fs outer read e ns rest => read?_close b outer read
  | @itemsMore ls ms e es _ more ihFirst ihMore =>
    intro b fs outer read e' ns rest
    have next : Loosens 1 (ms ++ b.close :: rest) :=
      (more.loosens_items.mono (Nat.zero_le 1)).append (b.loosens_close 1 rest)
    have first := ihFirst (b.frame outer (e' :: read) :: fs) .none ns _ (Pending.none_clearFrom 1) next
    rw [List.cons_append, read?_comma, List.append_assoc, first, ihMore, List.reverse_cons, List.append_assoc]
    rfl
  | @chain level ls ms e rights _ more ihFirst ihMore =>
    intro fs p ns rest hp hrest
    have next := (more.loosens_rights.append hrest).mono (Nat.le_succ level.rank)
    have first := reads_part ihFirst fs p ns _ (fun l hl => hp l (Nat.le_of_succ_le hl)) next
    rw [List.append_assoc, first, ihMore _ _ _ _ _ hp hrest, gather_joinAll]
  | rightsEnd => exact fun fs p left ns rest _ _ => rfl
  | @rightsMore op level ls ms e rights hop _ more ihFirst ihMore =>
    subst hop
    intro fs p left ns rest hp hrest
    have next := more.loosens_rights.append hrest
    have first := reads_part ihFirst fs (p.wait left op) ns _ (Pending.wait_clearFrom hp)
      (next.mono (Nat.le_succ op.level.rank))
    rw [List.cons_append, read?_operator, List.append_assoc, first, read?_join hp next,
      ihMore _ _ _ _ _ hp hrest]
    rfl

theorem read?_of_derives (h : Derives ls (.expression e)) : start.read? ls = some ⟨e, e.gather .none⟩ := by
  have := readsPhrase_of_derives h [] .none .none [] (Pending.none_clearFrom 1) nofun
  rwa [List.append_nil] at this

end State

/-! ### What a state has read -/

/-- An operand on the right of what waits for it. -/
def joinWaiting (e : Expr) : Option (Expr × Operator) → Expr
  | some (left, op) => op.join left e
  | none => e

/-- The lexemes are a chain of the level and an operator of it, or nothing. -/
inductive Awaits (level : Level) : List Lexeme → Option (Expr × Operator) → Prop where
  | nothing : Awaits level [] none
  | left {ls e op} : op.level = level → Derives ls (.chain level e) →
      Awaits level (ls ++ [op.lexeme]) (some (e, op))

/-- The lexemes are what waits to the left of the next operand. -/
inductive SpellsPending (p : Pending) : List Lexeme → Prop where
  | mk {ds cs rs} : Awaits .expression ds (p.waiting .expression) →
      Awaits .conjunction cs (p.waiting .conjunction) → Awaits .relation rs (p.waiting .relation) →
      SpellsPending p (ds ++ (cs ++ rs))

/-- The lexemes are items, a comma behind each. -/
inductive SpellsItems : List Lexeme → List Expr → Prop where
  | nil : SpellsItems [] []
  | cons {ls ms read e} : SpellsItems ls read → Derives ms (.expression e) →
      SpellsItems (ls ++ (ms ++ [.comma])) (e :: read)

/-- The lexemes are the open brackets, with all that stands to the left of the innermost content. -/
inductive SpellsFrames : List Lexeme → List Frame → Prop where
  | nil : SpellsFrames [] []
  | group {before waits outer rest} : SpellsFrames before rest → SpellsPending outer waits →
      SpellsFrames (before ++ (waits ++ [.openParen])) (.group outer :: rest)
  | list {before waits items outer read rest frame} (b : Enclosure) : SpellsFrames before rest →
      SpellsPending outer waits → SpellsItems items read → frame = b.frame outer read →
      SpellsFrames (before ++ (waits ++ (b.opening ++ items))) (frame :: rest)

/-- The lexemes are what has been read last. -/
def SpellsPhase (ls : List Lexeme) : Phase → Prop
  | .expecting => ls = []
  | .named name => ls = [.name name]
  | .operand e => Derives ls (.operand e)

/-- The state is what the machine knows after those lexemes. -/
def Spells (ls : List Lexeme) (s : State) : Prop :=
  ∃ frames waits last, SpellsFrames frames s.frames ∧ SpellsPending s.pending waits ∧
    SpellsPhase last s.phase ∧ ls = frames ++ (waits ++ last)

theorem spellsPending_none : SpellsPending .none [] :=
  @SpellsPending.mk .none [] [] [] .nothing .nothing .nothing

theorem spells_start : Spells [] .start := ⟨[], [], [], .nil, spellsPending_none, rfl, rfl⟩

section
variable {p : Pending} {ls ms : List Lexeme} {e : Expr}

theorem relation_eq : p.relation e = joinWaiting e (p.waiting .relation) := by
  rcases p with ⟨d, c, _ | _⟩ <;> rfl

theorem conjunction_eq : p.conjunction e = joinWaiting (p.relation e) (p.waiting .conjunction) := by
  rcases p with ⟨d, _ | _, r⟩ <;> rfl

theorem expression_eq : p.expression e = joinWaiting (p.conjunction e) (p.waiting .expression) := by
  rcases p with ⟨_ | _, c, r⟩ <;> rfl

theorem Awaits.chain {level : Level} {waits : Option (Expr × Operator)} (h : Awaits level ls waits)
    (right : Derives ms (level.part e)) : Derives (ls ++ ms) (.chain level (joinWaiting e waits)) := by
  cases h with
  | nothing => exact right.chain_of_part
  | left hop left =>
    rw [List.append_assoc]
    exact left.chain_snoc hop right

/-- The chains of all levels that end with an operand. -/
theorem chains {ds cs rs : List Lexeme} (disjunct : Awaits .expression ds (p.waiting .expression))
    (conjunct : Awaits .conjunction cs (p.waiting .conjunction))
    (related : Awaits .relation rs (p.waiting .relation)) (last : Derives ms (.operand e)) :
    Derives (rs ++ ms) (.chain .relation (p.relation e)) ∧
      Derives (cs ++ (rs ++ ms)) (.chain .conjunction (p.conjunction e)) ∧
      Derives (ds ++ (cs ++ (rs ++ ms))) (.expression (p.expression e)) := by
  have relation := related.chain last
  rw [← relation_eq] at relation
  have conjunction := conjunct.chain relation
  rw [← conjunction_eq] at conjunction
  have expression := disjunct.chain conjunction
  rw [← expression_eq] at expression
  exact ⟨relation, conjunction, expression⟩

theorem SpellsPending.expression (h : SpellsPending p ls) (last : Derives ms (.operand e)) :
    Derives (ls ++ ms) (.expression (p.expression e)) := by
  cases h with
  | mk disjunct conjunct related =>
    simpa only [List.append_assoc] using (chains disjunct conjunct related last).2.2

/-- An operator joins all that binds at least as tightly, and waits for its own right side. -/
theorem SpellsPending.wait (h : SpellsPending p ls) (last : Derives ms (.operand e)) (op : Operator) :
    SpellsPending (p.wait e op) (ls ++ (ms ++ [op.lexeme])) := by
  cases h with
  | @mk ds cs rs disjunct conjunct related =>
    obtain ⟨relation, conjunction, expression⟩ := chains disjunct conjunct related last
    rcases op with op | op | op
    · have := @SpellsPending.mk (p.wait e (.comparison op)) ds cs _ disjunct conjunct (.left rfl relation)
      simpa only [List.append_assoc] using this
    · have := @SpellsPending.mk (p.wait e (.connective .and)) ds _ [] disjunct (.left rfl conjunction) .nothing
      simpa only [List.append_assoc, List.append_nil] using this
    · have := @SpellsPending.mk (p.wait e (.connective .or)) _ [] [] (.left rfl expression) .nothing .nothing
      simpa only [List.append_assoc, List.append_nil] using this

theorem SpellsPending.eq_nil (h : SpellsPending p ls) (hp : p.isNone = true) : ls = [] := by
  rcases p with ⟨_ | _, _ | _, _ | _⟩ <;> cases hp
  obtain ⟨⟨⟩, ⟨⟩, ⟨⟩⟩ := h
  rfl

theorem SpellsItems.list {read : List Expr} (h : SpellsItems ls read) (last : Derives ms (.expression e)) :
    Derives (ls ++ ms) (.list (e :: read).reverse) := by
  induction h generalizing ms e with
  | nil => exact last.list_single
  | cons _ item ih =>
    have := (ih item).list_snoc (by simp) last
    simpa only [List.append_assoc, List.reverse_cons, List.cons_append, List.nil_append] using this

end

/-! ### Steps -/

section
variable {s next : State} {outer : Pending} {rest : List Frame} {read : List Expr} {e : Expr}
  {ls ms : List Lexeme} {l : Lexeme}

theorem SpellsFrames.list_inv {b : Enclosure} (h : SpellsFrames ls (b.frame outer read :: rest)) :
    ∃ before waits items, SpellsFrames before rest ∧ SpellsPending outer waits ∧ SpellsItems items read ∧
      ls = before ++ (waits ++ (b.opening ++ items)) := by
  generalize hf : b.frame outer read = frame at h
  cases h with
  | group => cases b <;> cases hf
  | list b' before waits items hb =>
    rw [hb] at hf
    cases b <;> cases b' <;> cases hf <;> exact ⟨_, _, _, before, waits, items, rfl⟩

/-- A comma behind an item of a list. -/
theorem spells_following {b : Enclosure} (frames : SpellsFrames ls (b.frame outer read :: rest))
    (item : Derives ms (.expression e)) :
    Spells (ls ++ (ms ++ [.comma])) (s.following (b.frame outer (e :: read)) rest) := by
  obtain ⟨before, waits, items, hbefore, hwaits, hitems, rfl⟩ := frames.list_inv
  refine ⟨_, [], [], .list b hbefore hwaits (.cons hitems item) rfl, spellsPending_none, rfl, ?_⟩
  simp only [List.append_assoc, List.append_nil]

/-- An operand behind what stands outside a bracket, once the bracket closes. -/
theorem spells_closed {before waits : List Lexeme} (frames : SpellsFrames before rest)
    (hwaits : SpellsPending outer waits) (operand : Derives ls (.operand e)) :
    Spells (before ++ (waits ++ ls)) (s.closed rest outer e) :=
  ⟨before, waits, ls, frames, hwaits, operand, rfl⟩

/-- The closing bracket behind the items of a list. -/
theorem spells_closedList {b : Enclosure} {es : List Expr} (frames : SpellsFrames ls (b.frame outer read :: rest))
    (list : ∀ items, SpellsItems items read → Derives (items ++ ms) (.list es)) :
    Spells (ls ++ (ms ++ [b.close])) (s.closed rest outer (b.tree es)) := by
  obtain ⟨before, waits, items, hbefore, hwaits, hitems, rfl⟩ := frames.list_inv
  have := spells_closed (s := s) hbefore hwaits (b.derives_tree (list items hitems))
  simpa only [List.append_assoc] using this

theorem spells_stepExpecting (h : Spells ls s) (hs : s.phase = .expecting)
    (step : s.stepExpecting l = some next) : Spells (ls ++ [l]) next := by
  obtain ⟨frames, waits, last, hframes, hwaits, hlast, rfl⟩ := h
  rw [hs] at hlast
  cases hlast
  have literal {value : Literal} (hv : Literal.ofLexeme? l = some value) :
      Spells (frames ++ (waits ++ [l])) (s.withOperand (.literal value)) :=
    ⟨frames, waits, [l], hframes, hwaits, .literal hv, rfl⟩
  have empty {b : Enclosure} {outer : Pending} {rest : List Frame}
      (hf : s.frames = b.frame outer [] :: rest) (hp : s.pending.isNone = true) :
      Spells (frames ++ (waits ++ [b.close])) (s.closed rest outer (b.tree [])) := by
    rw [hf] at hframes
    cases hwaits.eq_nil hp
    refine spells_closedList hframes fun items hitems => ?_
    cases hitems
    exact .noItem
  rw [List.append_nil, List.append_assoc]
  cases l with
  | openParen =>
    cases step
    exact ⟨_, [], [], .group hframes hwaits, spellsPending_none, rfl, by simp⟩
  | openBracket =>
    cases step
    exact ⟨_, [], [], .list .array hframes hwaits .nil rfl, spellsPending_none, rfl, by simp [Enclosure.opening]⟩
  | string | number | boolean | null => cases step; exact literal rfl
  | name path =>
    cases step
    exact ⟨frames, waits, [.name path], hframes, hwaits, rfl, rfl⟩
  | closeParen =>
    simp only [State.stepExpecting] at step
    split at step
    · rename_i outer function rest hf
      split at step <;> cases step
      rename_i hp
      exact empty (b := .arguments function) hf hp
    · cases step
  | closeBracket =>
    simp only [State.stepExpecting] at step
    split at step
    · rename_i outer rest hf
      split at step <;> cases step
      rename_i hp
      exact empty (b := .array) hf hp
    · cases step
  | _ => cases step

theorem spells_stepOperand (h : Spells ls s) (hs : s.phase = .operand e)
    (step : s.stepOperand e l = some next) : Spells (ls ++ [l]) next := by
  obtain ⟨frames, waits, last, hframes, hwaits, hlast, rfl⟩ := h
  rw [hs] at hlast
  have item := hwaits.expression hlast
  have operator (op : Operator) (hop : op.lexeme = l) : Spells (frames ++ ((waits ++ last) ++ [l])) next := by
    subst hop
    rw [State.stepOperand_operator] at step
    cases step
    exact ⟨frames, _, [], hframes, hwaits.wait hlast op, rfl, by simp⟩
  rw [List.append_assoc]
  cases l with
  | comparison op => exact operator (.comparison op) rfl
  | connective op => exact operator (.connective op) rfl
  | comma =>
    simp only [State.stepOperand] at step
    split at step <;> cases step <;> rename_i hf <;> rw [hf] at hframes
    · exact spells_following (b := .array) hframes item
    · rename_i function _ _
      exact spells_following (b := .arguments function) hframes item
  | closeParen =>
    simp only [State.stepOperand] at step
    split at step <;> cases step <;> rename_i hf <;> rw [hf] at hframes
    · cases hframes with
      | group hbefore hwaits' =>
        have := spells_closed (s := s) hbefore hwaits' (.group item)
        simpa only [List.append_assoc, List.cons_append, List.nil_append] using this
      | list b _ _ _ hb => cases b <;> cases hb
    · rename_i function _ _
      exact spells_closedList (s := s) (b := .arguments function) hframes fun items hitems => hitems.list item
  | closeBracket =>
    simp only [State.stepOperand] at step
    split at step <;> cases step
    rename_i hf
    rw [hf] at hframes
    exact spells_closedList (b := .array) hframes fun items hitems => hitems.list item
  | _ => cases step

theorem spells_settled (h : Spells ls s) : Spells ls s.settled := by
  obtain ⟨frames, waits, last, hframes, hwaits, hlast, rfl⟩ := h
  unfold State.settled
  split
  · rename_i hs
    rw [hs] at hlast
    cases hlast
    exact ⟨frames, waits, _, hframes, hwaits, .field, rfl⟩
  · exact ⟨frames, waits, last, hframes, hwaits, hlast, rfl⟩

/-- **A step keeps what the state has read.** -/
theorem spells_advance (h : Spells ls s) (step : s.advance l = some next) : Spells (ls ++ [l]) next := by
  unfold State.advance at step
  split at step
  · rename_i hs
    exact spells_stepExpecting h hs step
  · rename_i name hs
    split at step
    · -- the name and the parenthesis open the arguments of a call
      rename_i hl
      cases step
      obtain ⟨frames, waits, last, hframes, hwaits, hlast, rfl⟩ := h
      rw [hs] at hlast
      cases hlast
      exact ⟨_, [], [], .list (.arguments name) hframes hwaits .nil rfl, spellsPending_none, rfl,
        by simp [hl, Enclosure.opening]⟩
    · exact spells_stepOperand (spells_settled h) (by simp only [State.settled, hs]) step
  · rename_i hs
    exact spells_stepOperand h hs step

theorem derives_of_formula? {formula : Formula} (h : Spells ls s) (hf : s.formula? = some formula) :
    Derives ls (.expression formula.expr) := by
  obtain ⟨frames, waits, last, hframes, hwaits, hlast, rfl⟩ := spells_settled h
  simp only [State.formula?] at hf
  split at hf
  · rename_i hs hnil
    cases hf
    rw [hs] at hlast
    rw [hnil] at hframes
    cases hframes
    exact hwaits.expression hlast
  · cases hf

/-- **An accepted run has a derivation.** -/
theorem derives_of_read? {formula : Formula} (h : Spells ls s) (hr : s.read? ms = some formula) :
    Derives (ls ++ ms) (.expression formula.expr) := by
  induction ms generalizing s ls with
  | nil =>
    rw [List.append_nil]
    exact derives_of_formula? h hr
  | cons l ms ih =>
    obtain ⟨next, step, hr⟩ := Option.bind_eq_some_iff.mp hr
    have := ih (spells_advance h step) hr
    rwa [List.append_assoc] at this

end

/-! ### The formula of a list of tokens -/

/-- The lexemes before the end of the expression. -/
def kinds (tokens : List Token) : List Lexeme := (body tokens).map Token.lexeme

theorem finish_none_toOption (span : Span) (s : State) : (located span (s.finish none)).toOption = s.formula? := by
  simp only [State.finish, State.depthFault?]
  cases s.formula? <;> rfl

/-- Without a limit, places only matter to faults. -/
theorem run_none_toOption (span : Span) (tokens : List Token) : ∀ s : State,
    (match run none s tokens with
      | .ok last => located span (last.finish none)
      | .error e => .error e).toOption = s.read? (tokens.map Token.lexeme) := by
  induction tokens with
  | nil => exact finish_none_toOption span
  | cons token tokens ih =>
    intro s
    simp only [run, State.step, State.depthFault?, List.map_cons, State.read?]
    cases s.advance token.lexeme with
    | none => rfl
    | some next => exact ih next

end Parse

open Parse

theorem Formula.ofTokens_toOption (tokens : List Token) :
    (Formula.ofTokens none tokens).toOption = State.start.read? (kinds tokens) :=
  run_none_toOption (endSpan tokens) (body tokens) .start

theorem toOption_eq_some_iff {ε α : Type} {x : Except ε α} {a : α} : x.toOption = some a ↔ x = .ok a := by
  cases x <;> simp [Except.toOption]

/-- **Reading.** Tokens are read as a formula exactly if the grammar derives its tree from them, and
its names are those of the tree. -/
theorem Formula.ofTokens_eq_ok_iff {tokens : List Token} {formula : Formula} :
    Formula.ofTokens none tokens = .ok formula ↔
      Derives (kinds tokens) (.expression formula.expr) ∧ formula.names = formula.expr.gather .none := by
  rw [← toOption_eq_some_iff, Formula.ofTokens_toOption]
  constructor
  · intro h
    have derives : Derives (kinds tokens) (.expression formula.expr) := derives_of_read? spells_start h
    rw [State.read?_of_derives derives] at h
    exact ⟨derives, congrArg Formula.names (Option.some.inj h).symm⟩
  · rintro ⟨derives, names⟩
    rw [State.read?_of_derives derives, ← names]

/-- A text is read as a formula exactly if the grammar derives its tree from the tokens of the text, and
its names are those of the tree. -/
theorem Formula.parse_eq_ok_iff {source : String} {formula : Formula} :
    Formula.parse source = .ok formula ↔ ∃ tokens, Token.scan source = .ok tokens ∧
      Derives (kinds tokens) (.expression formula.expr) ∧ formula.names = formula.expr.gather .none := by
  unfold Formula.parse Formula.parseWithin
  cases Token.scan source with
  | error => simp
  | ok tokens => simp [Formula.ofTokens_eq_ok_iff]

/-- The fields of a formula that was read are those that its tree mentions. -/
theorem Formula.mem_fields_of_parse {source path : String} {formula : Formula}
    (h : Formula.parse source = .ok formula) : path ∈ formula.names.fields ↔ formula.expr.Mentions path := by
  obtain ⟨_, _, _, names⟩ := Formula.parse_eq_ok_iff.mp h
  rw [names, Expr.mem_fields_gathered]

/-- Two derivations from the same lexemes have the same tree. -/
theorem Derives.unique {ls : List Lexeme} {e e' : Expr} (h : Derives ls (.expression e))
    (h' : Derives ls (.expression e')) : e = e' := by
  have same := (State.read?_of_derives h).symm.trans (State.read?_of_derives h')
  exact congrArg Formula.expr (Option.some.inj same)

/-- **The machine reads the grammar.** Tokens are read without a limit exactly if the grammar derives
an expression from their lexemes up to the first `finish`; the tree read is then the only one that it
derives, and each name right before an opening parenthesis is called in it. -/
theorem ofTokens_iff_derives (tokens : List Token) :
    ((∃ formula, Formula.ofTokens none tokens = .ok formula) ↔ ∃ e, Derives (kinds tokens) (.expression e)) ∧
      ∀ formula, Formula.ofTokens none tokens = .ok formula →
        (∀ e, Derives (kinds tokens) (.expression e) ↔ e = formula.expr) ∧
          ∀ function, [.name function, .openParen] <:+: kinds tokens → formula.expr.Calls function := by
  refine ⟨⟨fun ⟨formula, h⟩ => ?_, fun ⟨e, derives⟩ => ?_⟩, fun formula h => ⟨fun e => ⟨fun derives => ?_, ?_⟩, ?_⟩⟩
  · exact ⟨formula.expr, (Formula.ofTokens_eq_ok_iff.mp h).1⟩
  · exact ⟨⟨e, e.gather .none⟩, Formula.ofTokens_eq_ok_iff.mpr ⟨derives, rfl⟩⟩
  · exact derives.unique (Formula.ofTokens_eq_ok_iff.mp h).1
  · rintro rfl
    exact (Formula.ofTokens_eq_ok_iff.mp h).1
  · intro function hopen
    obtain ⟨e, he, calls⟩ := (Formula.ofTokens_eq_ok_iff.mp h).1.calls hopen
    exact List.mem_singleton.mp he ▸ calls

end RecordRules
