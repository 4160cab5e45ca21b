/-
# What a guard keeps out of an answer

A guard is asked about every field that a formula names before anything is read. If it
refuses one, the answer says so and depends on no record. If it permits all, and every
path function of the formula takes its path from a literal, the evaluation reads fields
that the formula names and no others. So two changes that differ only in fields that the
guard refuses get one answer, be it a boolean or an error.

A path function whose path is computed can reach a field that no guard was asked about
(`lookups_sourced` says which), and `DirectPaths` leaves such formulas out. A call
without arguments has no path and stays in.

Key definitions: `Expr.DirectPaths`, `Change.AgreeOn`. Key theorems: `Expr.eval_congr`,
`evaluate_eq_of_agreeOn_permitted`.
-/
import Mathlib
import RecordRules.Evaluate
import RecordRules.Proofs.Reading

namespace RecordRules

namespace Change

/-- The two changes have the same value at the path, on each side. -/
def AgreeOn (c d : Change) (path : String) : Prop :=
  c.findAfter? path = d.findAfter? path ∧ c.findBefore? path = d.findBefore? path

variable {c d : Change} {path : String}

theorem AgreeOn.find? (h : AgreeOn c d path) : c.find? path = d.find? path := by
  rw [Change.find?, Change.find?, h.1, h.2]

theorem AgreeOn.apply (h : AgreeOn c d path) (function : PathFunction) :
    c.apply path function = d.apply path function := by
  cases function with
  | changed => rw [Change.apply, Change.apply, Change.changed, Change.changed, h.1, h.2]
  | get => rw [Change.apply, Change.apply, h.1]

end Change

namespace Expr

/-- A call of a path function that has arguments has a written text as the first of them. -/
def WritesPath : Expr → Prop
  | .call name args => PathFunction.ofName? name ≠ none → args ≠ [] →
    ∃ path rest, args = .literal (.string path) :: rest
  | _ => True

/-- The expression computes no path. -/
abbrev DirectPaths (e : Expr) : Prop := e.Everywhere WritesPath

/-! ### Evaluation and the named fields -/

variable {c d : Change}

mutual

/-- **Nothing else is read.** Changes that agree on the fields that an expression names give it one
value, or one error. -/
theorem eval_congr : ∀ e : Expr, e.DirectPaths → (∀ path, e.Mentions path → c.AgreeOn d path) →
    e.eval c = e.eval d
  | .literal _, _, _ => rfl
  | .field path, _, agree => by rw [eval, eval, (agree path .field).find?]
  | .array items, direct, agree => by
    have same := evalList_congr items (everywhere_array.mp direct).2
      fun e mem path hp => agree path (.inArray mem hp)
    rw [eval, eval, same]
  | .connect op left right, direct, agree => by
    obtain ⟨_, directLeft, directRight⟩ := everywhere_connect.mp direct
    have sameLeft := eval_congr left directLeft fun path hp => agree path (.connectLeft hp)
    have sameRight := eval_congr right directRight fun path hp => agree path (.connectRight hp)
    rw [eval, eval, sameLeft, sameRight]
  | .compare op left right, direct, agree => by
    obtain ⟨_, directLeft, directRight⟩ := everywhere_compare.mp direct
    have sameLeft := eval_congr left directLeft fun path hp => agree path (.compareLeft hp)
    have sameRight := eval_congr right directRight fun path hp => agree path (.compareRight hp)
    rw [eval, eval, sameLeft, sameRight]
  | .call name args, direct, agree => by
    rw [eval, eval]
    cases hf : PathFunction.ofName? name with
    | none => rfl
    | some function =>
      by_cases hargs : args = []
      · subst hargs
        rfl
      · have writes : WritesPath (.call name args) := (everywhere_call.mp direct).1
        obtain ⟨path, rest, rfl⟩ := writes (by simp [hf]) hargs
        have named : c.AgreeOn d path := agree path (.argument (by simp only [literalPath?, hf]))
        show Except.ok (c.apply path function) = Except.ok (d.apply path function)
        rw [named.apply]

theorem evalList_congr : ∀ es : List Expr, (∀ e ∈ es, e.DirectPaths) →
    (∀ e ∈ es, ∀ path, e.Mentions path → c.AgreeOn d path) → evalList c es = evalList d es
  | [], _, _ => rfl
  | e :: rest, direct, agree => by
    have same := eval_congr e (direct e List.mem_cons_self) (agree e List.mem_cons_self)
    have sameRest := evalList_congr rest (fun e mem => direct e (List.mem_cons_of_mem _ mem))
      fun e mem => agree e (List.mem_cons_of_mem _ mem)
    rw [evalList, evalList, same, sameRest]

end

end Expr

/-! ### Under a guard -/

namespace Guard

variable {guard : Guard} {paths front behind : List String} {path : String} {reason : Rejection}

/-- Permitted paths are passed one by one. -/
theorem askAll_append (permitted : ∀ path ∈ front, guard path = none) (behind : List String) :
    guard.askAll (front ++ behind) = ⟨front ++ (guard.askAll behind).asked, (guard.askAll behind).refused⟩ := by
  induction front with
  | nil => rfl
  | cons first front ih =>
    obtain ⟨firstPermitted, rest⟩ := List.forall_mem_cons.mp permitted
    simp only [List.cons_append, askAll, firstPermitted, ih rest]

theorem askAll_of_permitted (permitted : ∀ path ∈ paths, guard path = none) :
    guard.askAll paths = ⟨paths, none⟩ := by
  have passed := askAll_append permitted []
  rwa [List.append_nil, askAll, List.append_nil] at passed

/-- **The first refusal ends it.** -/
theorem askAll_of_refused (permitted : ∀ path ∈ front, guard path = none) (refused : guard path = some reason) :
    guard.askAll (front ++ path :: behind) = ⟨front ++ [path], some (path, reason)⟩ := by
  rw [askAll_append permitted, askAll, refused]

theorem exists_first_refused (refused : ∃ path ∈ paths, guard path ≠ none) : ∃ front path behind reason,
    paths = front ++ path :: behind ∧ (∀ other ∈ front, guard other = none) ∧ guard path = some reason := by
  have found : (paths.find? fun path => (guard path).isSome).isSome = true := by
    obtain ⟨path, mem, refused⟩ := refused
    exact List.find?_isSome.mpr ⟨path, mem, Option.isSome_iff_ne_none.mpr refused⟩
  obtain ⟨path, found⟩ := Option.isSome_iff_exists.mp found
  obtain ⟨refused, front, behind, parts, permitted⟩ := List.find?_eq_some_iff_append.mp found
  obtain ⟨reason, refused⟩ := Option.isSome_iff_exists.mp refused
  exact ⟨front, path, behind, reason, parts, fun other mem => by simpa using permitted other mem, refused⟩

theorem askAll_eq_none (h : (guard.askAll paths).refused = none) : ∀ path ∈ paths, guard path = none := by
  by_contra someRefused
  have someRefused : ∃ path ∈ paths, guard path ≠ none := by simpa using someRefused
  obtain ⟨front, path, behind, reason, rfl, permitted, refused⟩ := exists_first_refused someRefused
  rw [askAll_of_refused permitted refused] at h
  cases h

end Guard

/-- A change only matters to the answer once the guard has permitted all the fields of the formula. -/
theorem Formula.evaluate_congr {formula : Formula} {guard : Guard} {c d : Change}
    (h : (∀ path ∈ formula.names.fields, guard path = none) → formula.expr.eval c = formula.expr.eval d) :
    formula.evaluate c (some guard) = formula.evaluate d (some guard) := by
  cases refused : (guard.check formula.names.fields).refused with
  | some refusal => simp only [Formula.evaluate, refused]
  | none =>
    have same := h (Guard.askAll_eq_none refused)
    simp only [Formula.evaluate, Formula.holds, refused, same]

/-- **Guarded fields do not leak.** If each path function of the formula that the text spells has its
path written out, then changes that agree on every path that the guard permits, on each side, get
one verdict: the same boolean or the same error, after the same questions. -/
theorem evaluate_eq_of_agreeOn_permitted {source : String} {guard : Guard} {c d : Change}
    (direct : ∀ formula, Formula.parse source = .ok formula → formula.expr.DirectPaths)
    (agree : ∀ path, guard path = none → c.AgreeOn d path) :
    evaluate source c (some guard) = evaluate source d (some guard) := by
  unfold evaluate
  cases parsed : Formula.parse source with
  | error => rfl
  | ok formula =>
    refine Formula.evaluate_congr fun permitted => ?_
    refine formula.expr.eval_congr (direct formula parsed) fun path hp => agree path (permitted path ?_)
    exact (Formula.mem_fields_of_parse parsed).mpr hp

/-- The guard permits one field of a map. The other one differs and makes no difference. -/
theorem evaluate_eq_of_agreeOn_permitted_sibling :
    let source := "changed('owner.name') or owner.name == 'Ada'"
    let guard : Guard := fun path => if path = "owner.name" then none else some (.notAllowed path)
    let owned (pay : Value) : Change := ⟨none, [("owner", .map [("name", .string "Ada"), ("pay", pay)])]⟩
    (∀ formula, Formula.parse source = .ok formula → formula.expr.DirectPaths) ∧
      (∀ path, guard path = none → (owned .null).AgreeOn (owned (.bool true)) path) ∧
      evaluate source (owned .null) (some guard) = evaluate source (owned (.bool true)) (some guard) := by
  have known : (Formula.parse "changed('owner.name') or owner.name == 'Ada'").toOption.map Formula.expr =
      some (.connect .or (.call "changed" [.literal (.string "owner.name")])
        (.compare .equal (.field "owner.name") (.literal (.string "Ada")))) := by cbv
  intro source guard owned
  have direct : ∀ formula, Formula.parse source = .ok formula → formula.expr.DirectPaths := by
    intro formula parsed
    rw [parsed] at known
    rw [Option.some.inj known]
    simp [Expr.DirectPaths, Expr.WritesPath]
  have agree : ∀ path, guard path = none → (owned .null).AgreeOn (owned (.bool true)) path := by
    intro path permitted
    by_cases hpath : path = "owner.name"
    · subst hpath
      constructor <;> rfl
    · simp [guard, hpath] at permitted
  exact ⟨direct, agree, evaluate_eq_of_agreeOn_permitted direct agree⟩

end RecordRules
