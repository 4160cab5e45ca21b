/-
# The canonical text means the same

The canonical text of an expression is read as an expression that is alike: the sign of a
zero may be gone, and NaN is whatever NaN is. Evaluation does not see the difference.
Values that differ in this way alone (`Value.Alike`) have one form, so they are equal to the
same values; they are true together, come at the same place in the order, and are searched
for as the same text, as a zero is written without its sign, in expressions too
(`Expr.Alike.lexemes_eq`). So every comparison gives one
answer for both, and by induction on the tree alike expressions have alike values or fail
alike (`Expr.eval_alike`). Only the message that a value is not comparable may tell them
apart, for there an array is shown as JSON, where the sign of a zero does appear.

Key definitions: `Value.Alike`, `EvalError.Alike`, `AlikeResults`. Key theorems:
`Value.Alike.form_eq`, `Comparison.apply_alike`, `Expr.eval_alike`, `evaluate_canonical`.
-/
import RecordRules.Evaluate
import RecordRules.Proofs.Equality
import RecordRules.Proofs.RoundTrip

namespace RecordRules

/-! ### Alike numbers -/

namespace Binary64

variable {x y x' y' : Binary64}

theorem Alike.related_eq (hx : Alike x x') (hy : Alike y y') (rel : Int → Int → Bool) :
    related rel x y = related rel x' y' := by
  rw [alike_iff_key] at hx hy
  rw [related, related, hx, hy]

theorem Alike.isZero_eq (h : Alike x y) : x.isZero = y.isZero := by
  rw [alike_iff_key] at h
  rw [Bool.eq_iff_iff, isZero_iff_key, isZero_iff_key, h]

theorem Alike.isNaN_eq (h : Alike x y) : x.isNaN = y.isNaN := by
  rw [alike_iff_key] at h
  rw [Bool.eq_iff_iff, isNaN_iff_key, isNaN_iff_key, h]

/-- Alike numbers have one magnitude, and one sign unless it is zero. -/
theorem Alike.plain_eq (h : Alike x y) : x.plain = y.plain := by
  obtain rfl | ⟨sign, sign', rfl, rfl⟩ := h.eq_or_zeros
  · rfl
  · simp [ofRank, plain]

theorem Alike.digits_eq (h : Alike x y) : x.digits = y.digits := by
  obtain rfl | ⟨sign, sign', rfl, rfl⟩ := h.eq_or_zeros
  · rfl
  · rw [digits_zero, digits_zero]

end Binary64

/-! ### Alike values -/

namespace Value

mutual

/-- The same value, but for numbers that are alike. -/
inductive Alike : Value → Value → Prop where
  | refl (value : Value) : Alike value value
  | number {x y : Binary64} : x.Alike y → Alike (.number x) (.number y)
  | array {xs ys : List Value} : AlikeItems xs ys → Alike (.array xs) (.array ys)

inductive AlikeItems : List Value → List Value → Prop where
  | nil : AlikeItems [] []
  | cons {x y : Value} {xs ys : List Value} : Alike x y → AlikeItems xs ys → AlikeItems (x :: xs) (y :: ys)

end

mutual

/-- **One form.** Equality does not see the difference. -/
theorem Alike.form_eq : ∀ {v w : Value}, v.Alike w → v.form = w.form
  | _, _, .refl _ => rfl
  | _, _, .number h => by rw [form, form, Binary64.alike_iff_key.mp h]
  | _, _, .array h => by rw [form, form, h.form_eq]

theorem AlikeItems.form_eq : ∀ {xs ys : List Value}, AlikeItems xs ys → formItems xs = formItems ys
  | _, _, .nil => rfl
  | _, _, .cons h rest => by rw [formItems, formItems, h.form_eq, rest.form_eq]

end

variable {v w v' w' : Value}

theorem Alike.deepEqual_eq (hv : v.Alike v') (hw : w.Alike w') : v.deepEqual w = v'.deepEqual w' := by
  rw [Bool.eq_iff_iff, deepEqual_iff_form, deepEqual_iff_form, hv.form_eq, hw.form_eq]

theorem Alike.typeName_eq (h : v.Alike w) : v.typeName = w.typeName := by
  cases h <;> rfl

theorem Alike.isTruthy_eq (h : v.Alike w) : v.isTruthy = w.isTruthy := by
  cases h with
  | refl => rfl
  | number h => rw [isTruthy, isTruthy, isTruthyNumber, isTruthyNumber, h.isZero_eq, h.isNaN_eq]
  | array => rfl

mutual

theorem Alike.normalize : ∀ {v w : Value}, v.Alike w → v.normalize.Alike w.normalize
  | _, _, .refl _ => .refl _
  | _, _, .number h => .number h
  | _, _, .array h => .array h.normalize

theorem AlikeItems.normalize : ∀ {xs ys : List Value}, AlikeItems xs ys →
    AlikeItems (normalizeItems xs) (normalizeItems ys)
  | _, _, .nil => .nil
  | _, _, .cons h rest => .cons h.normalize rest.normalize

end

mutual

/-- Both are searched for as one text. -/
theorem Alike.needle_eq : ∀ {v w : Value}, v.Alike w → v.needle = w.needle
  | _, _, .refl _ => rfl
  | _, _, .number h => by
    show String.ofList _ = String.ofList _
    rw [h.plain_eq]
  | _, _, .array h => by rw [needle, needle, h.needles_eq]

theorem AlikeItems.needles_eq : ∀ {xs ys : List Value}, AlikeItems xs ys → itemNeedles xs = itemNeedles ys
  | _, _, .nil => rfl
  | _, _, .cons (x := x) (.refl _) rest => by cases x <;> simp only [itemNeedles, rest.needles_eq]
  | _, _, .cons (.number h) rest => by
    simp only [itemNeedles, rest.needles_eq, (Alike.number h).needle_eq]
  | _, _, .cons (.array h) rest => by
    simp only [itemNeedles, rest.needles_eq, (Alike.array h).needle_eq]

end

theorem AlikeItems.any_eq {xs ys : List Value} (h : AlikeItems xs ys) {p q : Value → Bool}
    (hpq : ∀ x y, x.Alike y → p x = q y) : xs.any p = ys.any q := by
  induction xs generalizing ys with
  | nil => cases h; rfl
  | cons x xs ih =>
    cases h with
    | cons first rest => rw [List.any_cons, List.any_cons, hpq _ _ first, ih rest]

end Value

/-! ### Alike answers -/

/-- The same error, but for the message that a value is not comparable. -/
def EvalError.Alike : EvalError → EvalError → Prop
  | .notComparable _, .notComparable _ => True
  | a, b => a = b

/-- The same error, but for that message. -/
def RuleError.Alike : RuleError → RuleError → Prop
  | .eval a, .eval b => a.Alike b
  | a, b => a = b

/-- Two results that agree, or two errors that do. -/
inductive AlikeResults {ε α : Type} (sameError : ε → ε → Prop) (same : α → α → Prop) :
    Except ε α → Except ε α → Prop where
  | ok {a b : α} : same a b → AlikeResults sameError same (.ok a) (.ok b)
  | error {e f : ε} : sameError e f → AlikeResults sameError same (.error e) (.error f)

section
variable {v w v' w' : Value}

theorem Value.Alike.comparable (h : v.Alike w) :
    AlikeResults EvalError.Alike Binary64.Alike v.comparable w.comparable := by
  cases h with
  | refl =>
    unfold Value.comparable
    cases v.comparable? with
    | none => exact .error trivial
    | some x => exact .ok (Binary64.alike_iff_key.mpr rfl)
  | number h => exact .ok h
  | array => exact .error trivial

/-- A relation of places orders alike values alike. -/
theorem Value.Alike.ordered (hv : v.Alike v') (hw : w.Alike w') {rel : Binary64 → Binary64 → Bool}
    (places : ∀ x x' y y' : Binary64, x.Alike x' → y.Alike y' → rel x y = rel x' y') :
    AlikeResults EvalError.Alike Eq (v.ordered rel w) (v'.ordered rel w') := by
  have left := hv.comparable
  have right := hw.comparable
  unfold Value.ordered
  generalize v.comparable = x, v'.comparable = x' at left
  generalize w.comparable = y, w'.comparable = y' at right
  cases left with
  | error same => exact .error same
  | ok hx =>
    cases right with
    | error same => exact .error same
    | ok hy => exact .ok (places _ _ _ _ hx hy)

theorem Value.Alike.memberOf (hv : v.Alike v') (hw : w.Alike w') :
    AlikeResults EvalError.Alike Eq (v.memberOf w) (v'.memberOf w') := by
  have found : v.memberOf? w = v'.memberOf? w' := by
    cases hw with
    | refl =>
      cases w with
      | array items => exact congrArg some (congrArg items.any (funext fun _ => hv.deepEqual_eq (.refl _)))
      | _ => rfl
    | number => rfl
    | array items => exact congrArg some (items.any_eq fun _ _ item => hv.deepEqual_eq item)
  unfold Value.memberOf
  rw [found, hw.typeName_eq]
  cases v'.memberOf? w' with
  | some => exact .ok rfl
  | none => exact .error rfl

theorem Value.Alike.contains (hv : v.Alike v') (hw : w.Alike w') :
    AlikeResults EvalError.Alike Eq (v.contains w) (v'.contains w') := by
  have found : v.contains? w = v'.contains? w' := by
    cases hv with
    | refl =>
      cases v with
      | string s =>
        show some (Text.occursIn w.needle.toList s.toList) = some (Text.occursIn w'.needle.toList s.toList)
        rw [hw.needle_eq]
      | array items => exact congrArg some (congrArg items.any (funext fun _ => Alike.deepEqual_eq (.refl _) hw))
      | _ => rfl
    | number => rfl
    | array items => exact congrArg some (items.any_eq fun _ _ item => item.deepEqual_eq hw)
  unfold Value.contains
  rw [found, hv.typeName_eq]
  cases v'.contains? w' with
  | some => exact .ok rfl
  | none => exact .error rfl

/-- **A comparison gives one answer.** One case for each operator. -/
theorem Comparison.apply_alike (op : Comparison) (hv : v.Alike v') (hw : w.Alike w') :
    AlikeResults EvalError.Alike Eq (op.apply v w) (op.apply v' w') := by
  cases op with
  | equal => exact .ok (hv.deepEqual_eq hw)
  | notEqual => exact .ok (congrArg not (hv.deepEqual_eq hw))
  | greater => exact hv.ordered hw fun _ _ _ _ hx hy => hy.related_eq hx _
  | greaterOrEqual => exact hv.ordered hw fun _ _ _ _ hx hy => hy.related_eq hx _
  | less => exact hv.ordered hw fun _ _ _ _ hx hy => hx.related_eq hy _
  | lessOrEqual => exact hv.ordered hw fun _ _ _ _ hx hy => hx.related_eq hy _
  | memberOf => exact hv.memberOf hw
  | contains => exact hv.contains hw

end

/-! ### Alike texts -/

theorem Literal.Alike.lexeme_eq {a b : Literal} (h : a.Alike b) : a.lexeme = b.lexeme := by
  cases a with
  | number x =>
    cases b with
    | number y => rw [Literal.lexeme, Literal.lexeme, Binary64.Alike.digits_eq h]
    | _ => cases h
  | _ => cases h; rfl

namespace Expr

theorem Alike.rank_eq {e e' : Expr} (h : e.Alike e') : e.rank = e'.rank := by
  cases e <;> cases e' <;> first | cases h; done | rfl | (obtain ⟨rfl, _⟩ := h; rfl)

mutual

/-- **Alike expressions are printed alike.** -/
theorem lexemesBefore_alike : ∀ (e e' : Expr), e.Alike e' → ∀ rest, e.lexemesBefore rest = e'.lexemesBefore rest
  | .literal a, .literal b, h, rest => congrArg (· :: rest) (Literal.Alike.lexeme_eq h)
  | .field _, .field _, h, _ => by cases h; rfl
  | .connect _ l r, .connect _ l' r', ⟨rfl, hl, hr⟩, rest => by
    simp only [lexemesBefore, needsOnLeft, needsOnRight, hl.rank_eq, hr.rank_eq, lexemesBefore_alike l l' hl,
      lexemesBefore_alike r r' hr]
  | .compare _ l r, .compare _ l' r', ⟨rfl, hl, hr⟩, rest => by
    simp only [lexemesBefore, needsOnLeft, needsOnRight, hl.rank_eq, hr.rank_eq, lexemesBefore_alike l l' hl,
      lexemesBefore_alike r r' hr]
  | .call _ args, .call _ args', ⟨rfl, hargs⟩, rest => by
    rw [lexemesBefore, lexemesBefore, listBefore_alike args args' hargs]
  | .array items, .array items', h, rest => by
    rw [lexemesBefore, lexemesBefore, listBefore_alike items items' h]

theorem listBefore_alike : ∀ (es es' : List Expr), AlikeList es es' →
    ∀ rest, listBefore rest es = listBefore rest es'
  | [], [], _, _ => rfl
  | [e], [e'], ⟨h, _⟩, rest => lexemesBefore_alike e e' h rest
  | e :: f :: es, e' :: f' :: es', ⟨first, more⟩, rest => by
    show e.lexemesBefore (.comma :: listBefore rest (f :: es)) =
      e'.lexemesBefore (.comma :: listBefore rest (f' :: es'))
    rw [listBefore_alike (f :: es) (f' :: es') more, lexemesBefore_alike e e' first]

end

theorem Alike.lexemes_eq {e e' : Expr} (h : e.Alike e') : e.lexemes = e'.lexemes := lexemesBefore_alike e e' h []

end Expr

/-! ### Alike expressions -/

theorem Literal.Alike.value {a b : Literal} (h : a.Alike b) : a.value.Alike b.value := by
  cases a with
  | number x =>
    cases b with
    | number y => exact .number h
    | _ => cases h
  | _ => cases h; exact .refl _

namespace Expr

variable (change : Change)

mutual

/-- **Alike expressions have alike values, or fail alike.** -/
theorem eval_alike : ∀ e e' : Expr, e.Alike e' →
    AlikeResults EvalError.Alike Value.Alike (e.eval change) (e'.eval change)
  | .literal _, .literal _, h => .ok (Literal.Alike.value h)
  | .field _, .field _, h => by
    cases h
    exact .ok (.refl _)
  | .array xs, .array ys, h => by
    have items := evalList_alike xs ys h
    unfold eval
    generalize evalList change xs = vs, evalList change ys = vs' at items
    cases items with
    | error same => exact .error same
    | ok alike => exact .ok (.array alike)
  | .connect op l r, .connect _ l' r', ⟨rfl, hl, hr⟩ => by
    have left := eval_alike l l' hl
    have right := eval_alike r r' hr
    unfold eval
    generalize l.eval change = v, l'.eval change = v' at left
    generalize r.eval change = w, r'.eval change = w' at right
    cases left with
    | error same => exact .error same
    | ok alike =>
      dsimp only
      rw [alike.isTruthy_eq]
      split
      · exact .ok (.refl _)
      · cases right with
        | error same => exact .error same
        | ok alike =>
          dsimp only
          rw [alike.isTruthy_eq]
          exact .ok (.refl _)
  | .compare op l r, .compare _ l' r', ⟨rfl, hl, hr⟩ => by
    have left := eval_alike l l' hl
    have right := eval_alike r r' hr
    unfold eval
    generalize l.eval change = v, l'.eval change = v' at left
    generalize r.eval change = w, r'.eval change = w' at right
    cases left with
    | error same => exact .error same
    | @ok v v' hv =>
      cases right with
      | error same => exact .error same
      | @ok w w' hw =>
        have answer := op.apply_alike hv.normalize hw.normalize
        dsimp only
        generalize op.apply v.normalize w.normalize = a, op.apply v'.normalize w'.normalize = a' at answer
        cases answer with
        | error same => exact .error same
        | ok same =>
          cases same
          exact .ok (.refl _)
  | .call f args, .call _ args', ⟨rfl, hargs⟩ => by
    unfold eval
    cases PathFunction.ofName? f with
    | none => exact .error rfl
    | some function =>
      match args, args', hargs with
      | [], [], _ => exact .error rfl
      | e :: _, e' :: _, ⟨first, _⟩ =>
        have path := eval_alike e e' first
        unfold evalFirst
        generalize e.eval change = v, e'.eval change = v' at path
        cases path with
        | error same => exact .error same
        | @ok v _ alike =>
          -- Only a text is a path, and a text is alike to nothing but itself.
          cases alike with
          | refl => cases v <;> first | exact .ok (.refl _) | exact .error rfl
          | number => exact .error rfl
          | array => exact .error rfl

theorem evalList_alike : ∀ es es' : List Expr, AlikeList es es' →
    AlikeResults EvalError.Alike Value.AlikeItems (evalList change es) (evalList change es')
  | [], [], _ => .ok .nil
  | e :: es, e' :: es', ⟨hfirst, hrest⟩ => by
    have first := eval_alike e e' hfirst
    have rest := evalList_alike es es' hrest
    unfold evalList
    generalize e.eval change = v, e'.eval change = v' at first
    generalize evalList change es = vs, evalList change es' = vs' at rest
    cases first with
    | error same => exact .error same
    | ok hv =>
      cases rest with
      | error same => exact .error same
      | ok hvs => exact .ok (.cons hv hvs)

end

end Expr

theorem Expr.Alike.holds {e e' : Expr} (h : e.Alike e') (names names' : Names) (change : Change) :
    AlikeResults RuleError.Alike Eq (Formula.holds ⟨e, names⟩ change)
      (Formula.holds ⟨e', names'⟩ change) := by
  have answer := eval_alike change e e' h
  unfold Formula.holds
  generalize e.eval change = v, e'.eval change = v' at answer
  cases answer with
  | error same => exact .error same
  | ok alike => exact .ok alike.isTruthy_eq

theorem Formula.evaluate_alike {formula formula' : Formula} (exprs : formula.expr.Alike formula'.expr)
    (names : formula.names = formula'.names) (change : Change) (guard : Option Guard) :
    (formula.evaluate change guard).asked = (formula'.evaluate change guard).asked ∧
      AlikeResults RuleError.Alike Eq (formula.evaluate change guard).answer
        (formula'.evaluate change guard).answer := by
  have held := exprs.holds formula.names formula'.names change
  unfold Formula.evaluate
  rw [names]
  cases guard with
  | none => exact ⟨rfl, held⟩
  | some guard =>
    dsimp only
    cases (guard.check formula'.names.fields).refused with
    | none => exact ⟨rfl, held⟩
    | some refusal => exact ⟨rfl, .error rfl⟩

/-- **The canonical text means the same.** Evaluated for any change under any guard, it asks about the
same paths in the same order and has the same answer, or the same error but for the wording of the value
that is not comparable. -/
theorem evaluate_canonical {source : String} {formula : Formula} (parsed : Formula.parse source = .ok formula)
    (change : Change) (guard : Option Guard) :
    (evaluate formula.expr.text change guard).asked = (evaluate source change guard).asked ∧
      AlikeResults RuleError.Alike Eq (evaluate formula.expr.text change guard).answer
        (evaluate source change guard).answer := by
  have reparsed := parse_text (wellFormed_of_parse parsed)
  obtain ⟨_, _, _, names⟩ := Formula.parse_eq_ok_iff.mp parsed
  unfold RecordRules.evaluate
  rw [reparsed, parsed]
  exact Formula.evaluate_alike formula.expr.alike_reread names.symm change guard

/-- A negative zero and a number that is none, both printed otherwise than they were spelled. -/
theorem evaluate_canonical_member :
    let e : Expr := .compare .memberOf (.field "debt")
      (.array [.literal (.number .nan), .literal (.number (.ofRank true 0))])
    let change : Change := ⟨none, [("debt", .number (.ofRank false 0))]⟩
    let guard : Guard := fun _ => none
    Formula.parse "debt in [1.2.3, -0]" = .ok ⟨e, e.gather .none⟩ ∧ e.text = "debt in [0.0.0, 0]" ∧
      (evaluate e.text change (some guard)).asked = ["debt"] ∧
      AlikeResults RuleError.Alike Eq (evaluate e.text change (some guard)).answer (.ok true) := by
  intro e change guard
  have parsed : Formula.parse "debt in [1.2.3, -0]" = .ok ⟨e, e.gather .none⟩ := by cbv
  have printed : e.text = "debt in [0.0.0, 0]" := by
    simp only [e, Expr.text, Expr.lexemes, Expr.lexemesBefore, Expr.listBefore, Literal.lexeme,
      Binary64.digits_zero]
    cbv
  have held : evaluate "debt in [1.2.3, -0]" change (some guard) = ⟨.ok true, ["debt"]⟩ := by cbv
  obtain ⟨asked, answer⟩ := evaluate_canonical parsed change (some guard)
  rw [held] at asked answer
  exact ⟨parsed, printed, asked, answer⟩

end RecordRules
