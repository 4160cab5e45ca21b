/-
# Mirrored comparisons

Every comparison has a mirror that asks the same with its sides exchanged: `>` has `<`, `>=`
has `<=`, equality and its opposite are their own, and `in` has `contains`, as long as what is
searched is an array (a text is searched by `contains` alone). On values the two have one
answer, or none (`Comparison.answer?_mirrored`): equality is symmetric, so it does not matter on
which side of it the items of an array stand, and the order of numbers is one relation read
from either end.

The two expressions evaluate their sides in different order, and where both sides fail they
fail with different errors. But each of them needs both sides, so one fails exactly if the
other does (`Expr.compared?_mirrored`).

Key definitions: `Comparison.mirrored`, `Expr.compared?`, `Expr.Agree`. Key theorems:
`Comparison.answer?_mirrored`, `Expr.compared?_mirrored`, `mirrored_comparisons_agree`.
-/
import RecordRules.Proofs.Normalizing

namespace RecordRules

/-! ### Values -/

theorem Value.deepEqual_comm (a b : Value) : a.deepEqual b = b.deepEqual a := by
  rw [Bool.eq_iff_iff, deepEqual_iff_form, deepEqual_iff_form]
  exact ⟨.symm, .symm⟩

namespace Comparison

/-- The comparison that asks the same with its sides exchanged. -/
def mirrored : Comparison → Comparison
  | equal => equal
  | notEqual => notEqual
  | greater => less
  | greaterOrEqual => lessOrEqual
  | less => greater
  | lessOrEqual => greaterOrEqual
  | memberOf => contains
  | contains => memberOf

/-- If one of the sides is searched, it is an array. -/
def SearchesArray : Comparison → Value → Value → Prop
  | memberOf, _, right => ∃ items, right = .array items
  | contains, left, _ => ∃ items, left = .array items
  | _, _, _ => True

theorem SearchesArray.normalize {op : Comparison} {left right : Value} (h : op.SearchesArray left right) :
    op.SearchesArray left.normalize right.normalize := by
  cases op with
  | memberOf | contains =>
    obtain ⟨items, rfl⟩ := h
    exact ⟨Value.normalizeItems items, rfl⟩
  | _ => trivial

/-- **One answer from both ends.** -/
theorem answer?_mirrored {op : Comparison} {left right : Value} (searched : op.SearchesArray left right) :
    op.answer? left right = op.mirrored.answer? right left := by
  cases op with
  | equal => exact congrArg some (left.deepEqual_comm right)
  | notEqual => exact congrArg (fun same => some !same) (left.deepEqual_comm right)
  | greater | greaterOrEqual | less | lessOrEqual => exact Option.map₂_swap _ left.comparable? right.comparable?
  | memberOf =>
    obtain ⟨items, rfl⟩ := searched
    exact congrArg some (congrArg items.any (funext left.deepEqual_comm))
  | contains =>
    obtain ⟨items, rfl⟩ := searched
    exact congrArg some (congrArg items.any (funext fun item => item.deepEqual_comm right))

end Comparison

/-! ### Expressions -/

namespace Expr

/-- The answer of a comparison of two expressions, if both have values and those compare. -/
def compared? (change : Change) (op : Comparison) (l r : Expr) : Option Bool :=
  (l.eval change).toOption.bind fun v => (r.eval change).toOption.bind fun w =>
    op.answer? v.normalize w.normalize

/-- The value of the expression is that truth value. -/
def Gives (change : Change) (e : Expr) (answer : Bool) : Prop := e.eval change = .ok (.bool answer)

/-- The expression has no value. -/
def Fails (change : Change) (e : Expr) : Prop := ∃ error, e.eval change = .error error

/-- The two expressions give the same answers, and fail together. -/
structure Agree (change : Change) (e e' : Expr) : Prop where
  gives : ∀ answer, e.Gives change answer ↔ e'.Gives change answer
  fails : e.Fails change ↔ e'.Fails change

/-- The two expressions give opposite answers, and fail together. -/
structure Oppose (change : Change) (e e' : Expr) : Prop where
  gives : ∀ answer, e.Gives change answer ↔ e'.Gives change (!answer)
  fails : e.Fails change ↔ e'.Fails change

section
variable {change : Change} {op op' : Comparison} {l r l' r' : Expr}

/-- A comparison is evaluated to its answer, or fails. -/
theorem toOption_eval_compare (change : Change) (op : Comparison) (l r : Expr) :
    ((compare op l r).eval change).toOption = (compared? change op l r).map .bool := by
  rw [eval, compared?]
  cases l.eval change with
  | error => rfl
  | ok v =>
    cases r.eval change with
    | error => rfl
    | ok w =>
      simp only [Except.toOption, Option.bind_some, ← Comparison.toOption_apply]
      cases op.apply v.normalize w.normalize <;> rfl

theorem gives_compare_iff {answer : Bool} :
    (compare op l r).Gives change answer ↔ compared? change op l r = some answer := by
  rw [Gives, ← toOption_eq_some_iff, toOption_eval_compare]
  simp only [Option.map_eq_some_iff, Value.bool.injEq, exists_eq_right]

theorem fails_compare_iff : (compare op l r).Fails change ↔ compared? change op l r = none := by
  rw [← Option.map_eq_none_iff (f := Value.bool), ← toOption_eval_compare, Fails]
  cases (compare op l r).eval change <;> simp [Except.toOption]

theorem agree_of_compared? (same : compared? change op l r = compared? change op' l' r') :
    Agree change (compare op l r) (compare op' l' r') where
  gives answer := by rw [gives_compare_iff, gives_compare_iff, same]
  fails := by rw [fails_compare_iff, fails_compare_iff, same]

/-- **Sides exchanged.** Both sides are needed, whichever comes first, so the mirror has the same answer, or
none. -/
theorem compared?_mirrored (searched : ∀ v w, l.eval change = .ok v → r.eval change = .ok w →
    op.SearchesArray v w) : compared? change op l r = compared? change op.mirrored r l := by
  unfold compared?
  cases left : l.eval change with
  | error => cases (r.eval change).toOption <;> rfl
  | ok v =>
    cases right : r.eval change with
    | error => rfl
    | ok w => exact Comparison.answer?_mirrored (searched v w left right).normalize

/-- Unequal is what is not equal. -/
theorem compared?_notEqual (change : Change) (l r : Expr) :
    compared? change .notEqual l r = (compared? change .equal l r).map not := by
  unfold compared?
  cases l.eval change with
  | error => rfl
  | ok v => cases r.eval change <;> rfl

/-- An operator that searches nothing agrees with its mirror whatever the sides are. -/
theorem agree_mirrored (op : Comparison) (searchesNothing : ∀ v w, op.SearchesArray v w) :
    Agree change (compare op l r) (compare op.mirrored r l) :=
  agree_of_compared? (compared?_mirrored fun v w _ _ => searchesNothing v w)

theorem oppose_notEqual : Oppose change (compare .equal l r) (compare .notEqual l r) where
  gives answer := by
    rw [gives_compare_iff, gives_compare_iff, compared?_notEqual]
    cases compared? change .equal l r with
    | none => exact iff_of_false nofun nofun
    | some found => simp
  fails := by rw [fails_compare_iff, fails_compare_iff, compared?_notEqual, Option.map_eq_none_iff]

/-- In an array, `in` and `contains` search for the same. -/
theorem agree_memberOf {items : List Value} (array : r.eval change = .ok (.array items)) :
    Agree change (compare .memberOf l r) (compare .contains r l) := by
  refine agree_of_compared? (compared?_mirrored fun v w _ right => ?_)
  cases array.symm.trans right
  exact ⟨items, rfl⟩

end

end Expr

/-- **Mirrored comparisons agree.** For all expressions and every change: equality does not depend on the order
of its sides, and inequality is its opposite; `>` with its sides exchanged is `<`, and `>=` is `<=`; and if the
right side is an array, `in` is `contains` with the sides exchanged. Of each pair, one fails exactly if the other
does. -/
theorem mirrored_comparisons_agree (change : Change) (l r : Expr) :
    Expr.Agree change (.compare .equal l r) (.compare .equal r l) ∧
      Expr.Oppose change (.compare .equal l r) (.compare .notEqual l r) ∧
      Expr.Agree change (.compare .greater l r) (.compare .less r l) ∧
      Expr.Agree change (.compare .greaterOrEqual l r) (.compare .lessOrEqual r l) ∧
      ∀ items, r.eval change = .ok (.array items) →
        Expr.Agree change (.compare .memberOf l r) (.compare .contains r l) := by
  refine ⟨?_, Expr.oppose_notEqual, ?_, ?_, fun items => Expr.agree_memberOf⟩
  · exact Expr.agree_mirrored .equal fun _ _ => trivial
  · exact Expr.agree_mirrored .greater fun _ _ => trivial
  · exact Expr.agree_mirrored .greaterOrEqual fun _ _ => trivial

/-- A map that is searched for in an array, its entry a decimal in the field and a number in the array. In a
text nothing is a member, but the text does contain something. -/
theorem mirrored_comparisons_agree_decimal :
    let change : Change := ⟨none, [("fee", .map [("paid", .decimal ⟨"1.50", by decide⟩)]),
      ("fees", .array [.null, .map [("paid", .number (.ofBits 0x3FF8000000000000))]])]⟩
    Expr.Gives change (.compare .memberOf (.field "fee") (.field "fees")) true ∧
      Expr.Gives change (.compare .contains (.field "fees") (.field "fee")) true ∧
      Expr.Fails change (.compare .memberOf (.literal (.string "a")) (.literal (.string "ab"))) ∧
      Expr.Gives change (.compare .contains (.literal (.string "ab")) (.literal (.string "a"))) true := by
  intro change
  have contained : Expr.Gives change (.compare .contains (.field "fees") (.field "fee")) true :=
    Expr.gives_compare_iff.mpr (by decide +kernel)
  obtain ⟨_, _, _, _, inArray⟩ := mirrored_comparisons_agree change (.field "fee") (.field "fees")
  exact ⟨((inArray _ rfl).gives true).mpr contained, contained, ⟨_, rfl⟩,
    Expr.gives_compare_iff.mpr (by decide +kernel)⟩

end RecordRules
