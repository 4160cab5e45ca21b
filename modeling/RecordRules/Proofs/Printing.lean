/-
# Printed expressions are derived

The lexemes of a printed expression derive the expression again, with its numbers as they
come back from their digits. Parentheses stand where they are needed and nowhere else: an
operand binds at least as tightly as its operator on the left, and more tightly on the
right, or it stands in parentheses and is an operand of the grammar. `Binds` says how
tightly lexemes bind, and joining two sides by an operator keeps it (`binds_join`).

Of the printed lexemes, names are spelled as names and numbers as runs of digits, and no
two words stand side by side, for in no phrase of the grammar does one operand follow
another (`Derives.apart`).

Key definitions: `Expr.reread`, `Expr.WellFormed`, `Binds`. Key theorems:
`binds_lexemes`, `spelled_lexemes`, `Derives.apart`.
-/
import RecordRules.Proofs.Reading
import RecordRules.Proofs.Scanning

namespace RecordRules

/-! ### What comes back -/

/-- The literal with its number mapped, if it is one. -/
def Literal.mapNumber (f : Binary64 → Binary64) : Literal → Literal
  | .number x => .number (f x)
  | value => value

/-- The literal with a number as it comes back from its digits. -/
abbrev Literal.reread (value : Literal) : Literal := value.mapNumber Binary64.reread

theorem ofLexeme?_lexeme (value : Literal) : Literal.ofLexeme? value.lexeme = some value.reread := by
  cases value <;> rfl

theorem lexeme_reread (value : Literal) : value.reread.lexeme = value.lexeme := by
  cases value with
  | number x => rw [Literal.reread, Literal.mapNumber, Literal.lexeme, Literal.lexeme, Binary64.digits_reread]
  | _ => rfl

namespace Expr

mutual

/-- The expression with all its numbers mapped. -/
def mapNumbers (f : Binary64 → Binary64) : Expr → Expr
  | .literal value => .literal (value.mapNumber f)
  | .field path => .field path
  | .connect op left right => .connect op (left.mapNumbers f) (right.mapNumbers f)
  | .compare op left right => .compare op (left.mapNumbers f) (right.mapNumbers f)
  | .call function args => .call function (mapNumbersList f args)
  | .array items => .array (mapNumbersList f items)

def mapNumbersList (f : Binary64 → Binary64) : List Expr → List Expr
  | [] => []
  | e :: rest => e.mapNumbers f :: mapNumbersList f rest

end

/-- The expression with its numbers as they come back from their digits. -/
abbrev reread (e : Expr) : Expr := e.mapNumbers Binary64.reread

/-- The expressions with their numbers as they come back. -/
abbrev rereadList (es : List Expr) : List Expr := mapNumbersList Binary64.reread es

section
variable (f : Binary64 → Binary64)

theorem rank_mapNumbers (e : Expr) : (e.mapNumbers f).rank = e.rank := by
  cases e <;> rfl

theorem literalPath?_mapNumbersList (function : String) (args : List Expr) :
    literalPath? function (mapNumbersList f args) = literalPath? function args := by
  unfold literalPath?
  cases PathFunction.ofName? function with
  | none => rfl
  | some =>
    cases args with
    | nil => rfl
    | cons first rest =>
      cases first with
      | literal value => cases value <;> rfl
      | _ => rfl

mutual

/-- The names are those of the expression. -/
theorem gather_mapNumbers (names : Names) : ∀ e : Expr, (e.mapNumbers f).gather names = e.gather names
  | .literal _ => rfl
  | .field _ => rfl
  | .connect _ left right => by rw [mapNumbers, gather, gather, gather_mapNumbers _ left, gather_mapNumbers _ right]
  | .compare _ left right => by rw [mapNumbers, gather, gather, gather_mapNumbers _ left, gather_mapNumbers _ right]
  | .call function args => by
    rw [mapNumbers, gather, gather, gatherList_mapNumbersList _ args, Names.withCall,
      literalPath?_mapNumbersList, Names.withCall]
  | .array items => by rw [mapNumbers, gather, gather, gatherList_mapNumbersList _ items]

theorem gatherList_mapNumbersList (names : Names) : ∀ es : List Expr,
    gatherList names (mapNumbersList f es) = gatherList names es
  | [] => rfl
  | e :: rest => by
    rw [mapNumbersList, gatherList, gatherList, gather_mapNumbers _ e, gatherList_mapNumbersList _ rest]

end

end

mutual

/-- The expression that comes back is printed alike. -/
theorem lexemesBefore_reread : ∀ (e : Expr) (rest : List Lexeme),
    e.reread.lexemesBefore rest = e.lexemesBefore rest
  | .literal value, rest => by rw [reread, mapNumbers, lexemesBefore, lexemesBefore, lexeme_reread]
  | .field _, _ => rfl
  | .connect _ left right, rest => by
    simp only [reread, mapNumbers, lexemesBefore, needsOnLeft, needsOnRight, rank_mapNumbers, lexemesBefore_reread left,
      lexemesBefore_reread right]
  | .compare _ left right, rest => by
    simp only [reread, mapNumbers, lexemesBefore, needsOnLeft, needsOnRight, rank_mapNumbers, lexemesBefore_reread left,
      lexemesBefore_reread right]
  | .call _ args, rest => by rw [reread, mapNumbers, lexemesBefore, lexemesBefore, listBefore_rereadList args]
  | .array items, rest => by rw [reread, mapNumbers, lexemesBefore, lexemesBefore, listBefore_rereadList items]

theorem listBefore_rereadList : ∀ (es : List Expr) (rest : List Lexeme),
    listBefore rest (rereadList es) = listBefore rest es
  | [], _ => rfl
  | [e], rest => lexemesBefore_reread e rest
  | e :: e' :: es, rest => by
    show e.reread.lexemesBefore (.comma :: listBefore rest (rereadList (e' :: es))) =
      e.lexemesBefore (.comma :: listBefore rest (e' :: es))
    rw [listBefore_rereadList (e' :: es), lexemesBefore_reread e]

end

theorem text_reread (e : Expr) : e.reread.text = e.text := by
  rw [text, lexemes, lexemesBefore_reread, ← lexemes, ← text]

/-! ### Lexemes of parts -/

/-- The lexemes, in parentheses if they are needed. -/
def enclosed (needed : Bool) (ls : List Lexeme) : List Lexeme :=
  if needed then .openParen :: (ls ++ [.closeParen]) else ls

theorem openIf_closeIf (needed : Bool) (ls rest : List Lexeme) :
    openIf needed (ls ++ closeIf needed rest) = enclosed needed ls ++ rest := by
  cases needed <;> simp [openIf, closeIf, enclosed]

mutual

theorem lexemesBefore_eq : ∀ (e : Expr) (rest : List Lexeme), e.lexemesBefore rest = e.lexemes ++ rest
  | .literal _, _ => rfl
  | .field _, _ => rfl
  | .connect _ left right, rest => by
    rw [lexemes]
    simp only [lexemesBefore, lexemesBefore_eq left, lexemesBefore_eq right, openIf_closeIf, List.append_assoc,
      List.cons_append, List.append_nil]
  | .compare _ left right, rest => by
    rw [lexemes]
    simp only [lexemesBefore, lexemesBefore_eq left, lexemesBefore_eq right, openIf_closeIf, List.append_assoc,
      List.cons_append, List.append_nil]
  | .call _ args, rest => by
    rw [lexemes, lexemesBefore, lexemesBefore, listBefore_eq args, listBefore_eq args [_]]
    simp
  | .array items, rest => by
    rw [lexemes, lexemesBefore, lexemesBefore, listBefore_eq items, listBefore_eq items [_]]
    simp

theorem listBefore_eq : ∀ (es : List Expr) (rest : List Lexeme),
    listBefore rest es = listBefore [] es ++ rest
  | [], _ => rfl
  | [e], rest => lexemesBefore_eq e rest
  | e :: e' :: es, rest => by
    show e.lexemesBefore (.comma :: listBefore rest (e' :: es)) =
      e.lexemesBefore (.comma :: listBefore [] (e' :: es)) ++ rest
    rw [lexemesBefore_eq e, lexemesBefore_eq e, listBefore_eq (e' :: es), List.append_assoc, List.cons_append]

end

theorem lexemes_join (op : Operator) (left right : Expr) : (op.join left right).lexemes =
    enclosed (needsOnLeft op.level.rank left) left.lexemes ++
      op.lexeme :: enclosed (needsOnRight op.level.rank right) right.lexemes := by
  rw [lexemes]
  rcases op with op | op | op <;>
    simp only [Operator.join, lexemesBefore, lexemesBefore_eq left, lexemesBefore_eq right, openIf_closeIf,
      List.append_nil] <;> rfl

theorem lexemes_call (function : String) (args : List Expr) : (call function args).lexemes =
    .name function :: .openParen :: (listBefore [] args ++ [.closeParen]) := by
  rw [lexemes, lexemesBefore, listBefore_eq]

theorem lexemes_array (items : List Expr) : (array items).lexemes =
    .openBracket :: (listBefore [] items ++ [.closeBracket]) := by
  rw [lexemes, lexemesBefore, listBefore_eq]

theorem listBefore_cons (e : Expr) (es : List Expr) :
    listBefore [] (e :: es) = e.lexemes ++ es.flatMap fun e => .comma :: e.lexemes := by
  induction es generalizing e with
  | nil => rw [List.flatMap_nil, List.append_nil]; rfl
  | cons e' es ih =>
    show e.lexemesBefore (.comma :: listBefore [] (e' :: es)) = _
    rw [lexemesBefore_eq, ih, List.flatMap_cons, List.cons_append]

end Expr

/-! ### How tightly lexemes bind -/

/-- The lexemes are an expression that binds that tightly: a chain of each level up to that rank, and at
the highest rank an operand. -/
def Binds (rank : Nat) (ls : List Lexeme) (e : Expr) : Prop :=
  (∀ level : Level, level.rank ≤ rank → Derives ls (.chain level e)) ∧ (4 ≤ rank → Derives ls (.operand e))

section
variable {rank : Nat} {level : Level} {ls ms : List Lexeme} {e e' : Expr}

theorem binds_of_chain (h : Derives ls (.chain level e)) : Binds level.rank ls e := by
  refine ⟨fun looser hr => ?_, fun hr => absurd hr (Nat.not_le_of_lt level.rank_lt)⟩
  cases level with
  | relation =>
    have conjunction : Derives ls (.chain .conjunction e) := Derives.chain_of_part h
    cases looser with
    | relation => exact h
    | conjunction => exact conjunction
    | expression => exact Derives.chain_of_part conjunction
  | conjunction =>
    cases looser with
    | relation => exact absurd hr (by decide)
    | conjunction => exact h
    | expression => exact Derives.chain_of_part h
  | expression =>
    cases looser with
    | expression => exact h
    | _ => exact absurd hr (by decide)

theorem binds_of_operand (h : Derives ls (.operand e)) : Binds 4 ls e := by
  have related : Derives ls (.chain .relation e) := Derives.chain_of_part h
  refine ⟨fun level _ => (binds_of_chain related).1 level ?_, fun _ => h⟩
  cases level <;> decide

theorem Binds.part (h : Binds rank ls e) (hr : level.rank < rank) : Derives ls (level.part e) := by
  cases level with
  | relation => exact h.2 hr
  | conjunction => exact h.1 .relation hr
  | expression => exact h.1 .conjunction hr

theorem Binds.mono {looser : Nat} (h : Binds rank ls e) (hr : looser ≤ rank) : Binds looser ls e :=
  ⟨fun level hl => h.1 level (Nat.le_trans hl hr), fun hl => h.2 (Nat.le_trans hl hr)⟩

/-- In parentheses where they are needed, lexemes bind as tightly as needed. -/
theorem Binds.enclosed {needed : Bool} {bound : Nat} (h : Binds rank ls e) (pos : 1 ≤ rank) (hb : bound ≤ 4)
    (free : needed = false → bound ≤ rank) : Binds bound (Expr.enclosed needed ls) e := by
  cases needed with
  | true => exact (binds_of_operand (.group (h.1 .expression pos))).mono hb
  | false => exact h.mono (free rfl)

end

theorem Expr.rank_pos (e : Expr) : 1 ≤ e.rank := by
  cases e with
  | connect op => cases op <;> simp [rank, Connective.rank]
  | _ => simp [rank, comparisonRank]

/-- **Printed sides.** Joined by an operator, the sides bind as tightly as the operator, with the
parentheses that are needed for that. -/
theorem binds_join {op : Operator} {left right left' right' : Expr}
    (hleft : Binds left.rank left.lexemes left') (hright : Binds right.rank right.lexemes right') :
    Binds op.level.rank (op.join left right).lexemes (op.join left' right') := by
  have tight := op.level.rank_lt
  have onLeft :
      Binds op.level.rank (Expr.enclosed (left.needsOnLeft op.level.rank) left.lexemes) left' := by
    refine hleft.enclosed left.rank_pos (Nat.le_of_lt tight) fun free => ?_
    simpa [Expr.needsOnLeft] using free
  have onRight :
      Binds (op.level.rank + 1) (Expr.enclosed (right.needsOnRight op.level.rank) right.lexemes) right' := by
    refine hright.enclosed right.rank_pos tight fun free => ?_
    simpa [Expr.needsOnRight] using free
  rw [Expr.lexemes_join]
  have part := onRight.part (Nat.lt_succ_self _)
  exact binds_of_chain ((onLeft.1 op.level (Nat.le_refl _)).chain_snoc rfl part)

/-! ### The printed expression -/

mutual

/-- **Printed expressions are derived.** The lexemes of an expression bind as tightly as its outermost
operator. -/
theorem binds_lexemes : ∀ e : Expr, Binds e.rank e.lexemes e.reread
  | .literal value => binds_of_operand (.literal (ofLexeme?_lexeme value))
  | .field _ => binds_of_operand .field
  | .connect op left right => by
    have := @binds_join (.connective op) left right _ _ (binds_lexemes left) (binds_lexemes right)
    cases op <;> exact this
  | .compare op left right =>
    @binds_join (.comparison op) left right _ _ (binds_lexemes left) (binds_lexemes right)
  | .call function args => by
    rw [Expr.lexemes_call]
    exact binds_of_operand (.call (derives_listBefore args))
  | .array items => by
    rw [Expr.lexemes_array]
    exact binds_of_operand (.array (derives_listBefore items))

theorem derives_listBefore : ∀ es : List Expr, Derives (Expr.listBefore [] es) (.list (Expr.rereadList es))
  | [] => .noItem
  | e :: es => by
    rw [Expr.listBefore_cons]
    exact .someItems ((binds_lexemes e).1 .expression e.rank_pos) (derives_items es)

theorem derives_items : ∀ es : List Expr,
    Derives (es.flatMap fun e => .comma :: e.lexemes) (.items (Expr.rereadList es))
  | [] => .itemsEnd
  | e :: es => by
    rw [List.flatMap_cons]
    exact .itemsMore ((binds_lexemes e).1 .expression e.rank_pos) (derives_items es)

end

/-! ### Words apart -/

section
variable {ls ms : List Lexeme} {l : Lexeme}

theorem apart_cons (hl : l.isWord = false) (h : ls.IsChain Lexeme.Apart) :
    (l :: ls).IsChain Lexeme.Apart := by
  rw [List.isChain_cons]
  exact ⟨fun m _ both => by simp [hl] at both, h⟩

theorem apart_append (h : ls.IsChain Lexeme.Apart) (h' : ms.IsChain Lexeme.Apart)
    (first : ∀ m ∈ ms.head?, m.isWord = false) : (ls ++ ms).IsChain Lexeme.Apart := by
  rw [List.isChain_append]
  exact ⟨h, h', fun _ _ m hm both => by simp [first m hm] at both⟩

theorem apart_snoc (h : ls.IsChain Lexeme.Apart) (hl : l.isWord = false) :
    (ls ++ [l]).IsChain Lexeme.Apart := by
  refine apart_append h (List.isChain_singleton l) ?_
  rintro _ ⟨⟩
  exact hl

theorem Operator.isWord_lexeme (op : Operator) : op.lexeme.isWord = false := by
  cases op <;> rfl

theorem Derives.head_rights {level : Level} {rights : List (Operator × Expr)}
    (h : Derives ls (.rights level rights)) : ∀ l ∈ ls.head?, l.isWord = false := by
  cases h with
  | rightsEnd => nofun
  | rightsMore =>
    rintro _ ⟨⟩
    exact Operator.isWord_lexeme _

theorem Derives.head_items {items : List Expr} (h : Derives ls (.items items)) :
    ∀ l ∈ ls.head?, l.isWord = false := by
  cases h with
  | itemsEnd => nofun
  | itemsMore => rintro _ ⟨⟩; rfl

/-- **Words stand apart.** In the lexemes of a phrase there are no two words side by side. -/
theorem Derives.apart {phrase : Phrase} (h : Derives ls phrase) : ls.IsChain Lexeme.Apart := by
  induction h with
  | literal | field => exact List.isChain_singleton _
  | call _ ih =>
    rw [List.isChain_cons_cons]
    exact ⟨nofun, apart_cons rfl (apart_snoc ih rfl)⟩
  | group _ ih | array _ ih => exact apart_cons rfl (apart_snoc ih rfl)
  | noItem | itemsEnd | rightsEnd => exact List.isChain_nil
  | someItems _ more ihFirst ihMore => exact apart_append ihFirst ihMore more.head_items
  | itemsMore _ more ihFirst ihMore => exact apart_cons rfl (apart_append ihFirst ihMore more.head_items)
  | chain _ more ihFirst ihMore => exact apart_append ihFirst ihMore more.head_rights
  | rightsMore _ _ more ihFirst ihMore =>
    exact apart_cons (Operator.isWord_lexeme _) (apart_append ihFirst ihMore more.head_rights)

end

/-! ### Names in trees -/

namespace Expr

/-- A field or a function has a name that can be one. -/
def HasName : Expr → Prop
  | .field path => IsName path
  | .call function _ => IsName function
  | _ => True

/-- The names of all fields and functions in the expression are names. -/
abbrev WellFormed (e : Expr) : Prop := e.Everywhere HasName

end Expr

/-- The names of a tree are the names among the lexemes that it is read from. -/
theorem matches_hasName : Matches (fun l => ∀ name, l = .name name → IsName name) Expr.HasName where
  literal {l value} read := by
    refine iff_of_true ?_ trivial
    rintro name rfl
    cases read
  field path := by simp [Expr.HasName]
  call function args := by simp [Expr.HasName]
  array items := trivial
  join op left right := by cases op <;> trivial
  plain {l} _ noName := fun name same => absurd same (noName name)

/-- **Names are lexemes.** If the names among the lexemes of a phrase are names, then all names in its
trees are. -/
theorem Derives.wellFormed {ls : List Lexeme} {phrase : Phrase} (h : Derives ls phrase)
    (names : ∀ name, .name name ∈ ls → IsName name) : ∀ e ∈ phrase.trees, e.WellFormed := by
  refine (matches_hasName.everywhere_iff h).mp ?_
  rintro _ mem name rfl
  exact names name mem

/-! ### Spelling -/

section
variable {e left right : Expr} {es : List Expr}

theorem spelled_literal (value : Literal) : value.lexeme.Spelled := by
  cases value with
  | number x =>
    obtain ⟨first, rest, heq, number⟩ := x.digits_eq_cons
    exact ⟨first, rest, by rw [String.toList_ofList, heq], number⟩
  | _ => trivial

theorem spelled_enclosed {needed : Bool} {ls : List Lexeme} (h : ∀ l ∈ ls, l.Spelled) :
    ∀ l ∈ Expr.enclosed needed ls, l.Spelled := by
  cases needed with
  | true => exact List.forall_mem_cons.mpr ⟨trivial, by simpa [or_imp, forall_and] using ⟨h, trivial⟩⟩
  | false => exact h

theorem spelled_join {op : Operator} (hleft : ∀ l ∈ left.lexemes, l.Spelled)
    (hright : ∀ l ∈ right.lexemes, l.Spelled) : ∀ l ∈ (op.join left right).lexemes, l.Spelled := by
  have operator : op.lexeme.Spelled := by cases op <;> trivial
  rw [Expr.lexemes_join, List.forall_mem_append, List.forall_mem_cons]
  exact ⟨spelled_enclosed hleft, operator, spelled_enclosed hright⟩

theorem spelled_listBefore (h : ∀ e ∈ es, ∀ l ∈ e.lexemes, l.Spelled) :
    ∀ l ∈ Expr.listBefore [] es, l.Spelled := by
  cases es with
  | nil => nofun
  | cons e es =>
    obtain ⟨first, more⟩ := List.forall_mem_cons.mp h
    rw [Expr.listBefore_cons, List.forall_mem_append]
    refine ⟨first, fun l mem => ?_⟩
    obtain ⟨e', mem', mem⟩ := List.mem_flatMap.mp mem
    exact List.forall_mem_cons.mpr ⟨show Lexeme.comma.Spelled from trivial, more e' mem'⟩ l mem

end

mutual

/-- **Spelling.** The printed lexemes of a well-formed expression have spellings. -/
theorem spelled_lexemes : ∀ e : Expr, e.WellFormed → ∀ l ∈ e.lexemes, l.Spelled
  | .literal value, _ => List.forall_mem_singleton.mpr (spelled_literal value)
  | .field _, well => List.forall_mem_singleton.mpr (Expr.everywhere_field.mp well)
  | .connect op left right, well => by
    obtain ⟨_, wellLeft, wellRight⟩ := Expr.everywhere_connect.mp well
    have onLeft := spelled_lexemes left wellLeft
    have := @spelled_join left right (.connective op) onLeft (spelled_lexemes right wellRight)
    cases op <;> exact this
  | .compare op left right, well => by
    obtain ⟨_, wellLeft, wellRight⟩ := Expr.everywhere_compare.mp well
    have onLeft := spelled_lexemes left wellLeft
    exact @spelled_join left right (.comparison op) onLeft (spelled_lexemes right wellRight)
  | .call _ args, well => by
    obtain ⟨name, wellArgs⟩ := Expr.everywhere_call.mp well
    have inside := spelled_listBefore (spelled_each args wellArgs)
    rw [Expr.lexemes_call, List.forall_mem_cons, List.forall_mem_cons, List.forall_mem_append]
    exact ⟨name, trivial, inside, List.forall_mem_singleton.mpr trivial⟩
  | .array items, well => by
    obtain ⟨_, wellItems⟩ := Expr.everywhere_array.mp well
    have inside := spelled_listBefore (spelled_each items wellItems)
    rw [Expr.lexemes_array, List.forall_mem_cons, List.forall_mem_append]
    exact ⟨trivial, inside, List.forall_mem_singleton.mpr trivial⟩

theorem spelled_each : ∀ es : List Expr, (∀ e ∈ es, e.WellFormed) → ∀ e ∈ es, ∀ l ∈ e.lexemes, l.Spelled
  | [], _ => nofun
  | e :: es, well => by
    obtain ⟨first, more⟩ := List.forall_mem_cons.mp well
    exact List.forall_mem_cons.mpr ⟨spelled_lexemes e first, spelled_each es more⟩

end

end RecordRules
