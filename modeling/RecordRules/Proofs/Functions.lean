/-
# Which functions an evaluation can miss

An evaluation knows two functions and fails at any other that it comes to. Which calls
it comes to depends on the record: the right side of a connective may be left out, the
arguments behind the first always are, and a failure ends the evaluation. But it comes to
no call that does not stand in the expression, and no operator fails the way a call does.
So the functions gathered while a formula was read bound those it can fail at, and a
formula that calls nothing else than the two never fails at a function, whatever the
record.

`Inquiry.FailsOnly` says with which errors an inquiry can end, whatever is found on the
way; for the inquiry of an expression this needs one case for each kind of expression, and
no record.

Key definitions: `Inquiry.FailsOnly`, `Misses`. Key theorems: `Expr.failsOnly_inquire`,
`evaluate_unsupported_mem_functions`.
-/
import RecordRules.Proofs.Lookups

namespace RecordRules

/-! ### The errors of an inquiry -/

namespace Inquiry

variable {α β : Type} {P : EvalError → Prop} {x : Inquiry α} {change : Change}

/-- Whatever is found, the inquiry fails with no other errors. -/
def FailsOnly (P : EvalError → Prop) : Inquiry α → Prop
  | fail error => P error
  | done _ => True
  | ask _ _ next => ∀ found, (next found).FailsOnly P

theorem FailsOnly.andThen {rest : α → Inquiry β} (hx : x.FailsOnly P)
    (hrest : ∀ result, (rest result).FailsOnly P) : (x.andThen rest).FailsOnly P := by
  induction x with
  | fail error => exact hx
  | done result => exact hrest result
  | ask side path next ih => exact fun found => ih found (hx found)

theorem FailsOnly.of_answer {error : EvalError} (hx : x.FailsOnly P)
    (failed : x.answer change = .error error) : P error := by
  induction x with
  | fail error' =>
    cases failed
    exact hx
  | done result => cases failed
  | ask side path next ih => exact ih _ (hx _) failed

end Inquiry

/-! ### Missing functions -/

theorem PathFunction.ofName?_eq_none_iff {name : String} :
    PathFunction.ofName? name = none ↔ name ≠ "changed" ∧ name ≠ "get" := by
  unfold PathFunction.ofName?
  split
  · simp
  · simp
  · rename_i notChanged notGet
    exact ⟨fun _ => ⟨notChanged, notGet⟩, fun _ => rfl⟩

/-- If the error is that a function is missing, then one of those. -/
def Misses (functions : String → Prop) (error : EvalError) : Prop :=
  ∀ name, error = .unsupportedFunction name → functions name

section
variable {functions : String → Prop} {error : EvalError} {left right : Value}

theorem misses_comparable {value : Value} (h : value.comparable = .error error) : Misses functions error := by
  unfold Value.comparable at h
  split at h <;> cases h
  exact fun _ => nofun

theorem misses_ordered {rel : Binary64 → Binary64 → Bool} (h : left.ordered rel right = .error error) :
    Misses functions error := by
  unfold Value.ordered at h
  cases hl : left.comparable with
  | error e =>
    rw [hl] at h
    cases h
    exact misses_comparable hl
  | ok x =>
    cases hr : right.comparable with
    | error e =>
      rw [hl, hr] at h
      cases h
      exact misses_comparable hr
    | ok y =>
      rw [hl, hr] at h
      cases h

/-- No operator fails the way a call does. -/
theorem misses_apply {op : Comparison} (h : op.apply left right = .error error) : Misses functions error := by
  cases op with
  | equal | notEqual => cases h
  | greater | greaterOrEqual | less | lessOrEqual => exact misses_ordered h
  | memberOf =>
    simp only [Comparison.apply, Value.memberOf] at h
    split at h <;> cases h
    exact fun _ => nofun
  | contains =>
    simp only [Comparison.apply, Value.contains] at h
    split at h <;> cases h
    exact fun _ => nofun

theorem failsOnly_compare (op : Comparison) : (op.inquire left right).FailsOnly (Misses functions) := by
  unfold Comparison.inquire
  cases answer : op.apply left.normalize right.normalize with
  | error e => exact misses_apply answer
  | ok result => trivial

theorem failsOnly_pathInquire (path : String) (function : PathFunction) :
    (function.inquire path).FailsOnly (Misses functions) := by
  cases function with
  | changed => exact fun _ _ => trivial
  | get => exact fun _ => trivial

end

namespace Expr

variable {functions : String → Prop}

mutual

/-- **Missing functions are called.** The only functions that an expression can fail at are those that it
calls, apart from the two that mean something. -/
theorem failsOnly_inquire : ∀ e : Expr,
    (∀ name, e.Calls name → PathFunction.ofName? name = none → functions name) →
    e.inquire.FailsOnly (Misses functions)
  | .literal _, _ => trivial
  | .field path, _ => by
    intro found
    cases found with
    | some value => trivial
    | none => exact fun _ => trivial
  | .array items, h => by
    have asked := failsOnly_inquireList items fun e mem name calls => h name (.inArray mem calls)
    exact asked.andThen fun _ => trivial
  | .connect op left right, h => by
    have askedLeft := failsOnly_inquire left fun name calls => h name (.connectLeft calls)
    have askedRight := failsOnly_inquire right fun name calls => h name (.connectRight calls)
    refine askedLeft.andThen fun leftValue => ?_
    by_cases settled : op.settledBy leftValue.isTruthy = true
    · rw [if_pos settled]
      trivial
    · rw [if_neg settled]
      exact askedRight.andThen fun _ => trivial
  | .compare op left right, h => by
    have askedLeft := failsOnly_inquire left fun name calls => h name (.compareLeft calls)
    have askedRight := failsOnly_inquire right fun name calls => h name (.compareRight calls)
    exact askedLeft.andThen fun _ => askedRight.andThen fun _ => failsOnly_compare op
  | .call function args, h => by
    unfold inquire
    cases hf : PathFunction.ofName? function with
    | none =>
      rintro name ⟨⟩
      exact h function .call hf
    | some known =>
      have asked := failsOnly_inquireFirst function args fun e mem name calls => h name (.inCall mem calls)
      refine asked.andThen fun value => ?_
      cases value with
      | string path => exact failsOnly_pathInquire path known
      | _ => exact fun _ => nofun

theorem failsOnly_inquireList : ∀ es : List Expr,
    (∀ e ∈ es, ∀ name, e.Calls name → PathFunction.ofName? name = none → functions name) →
      (inquireList es).FailsOnly (Misses functions)
  | [], _ => trivial
  | e :: rest, h => by
    have first := failsOnly_inquire e (h e List.mem_cons_self)
    have more := failsOnly_inquireList rest fun e' mem => h e' (List.mem_cons_of_mem e mem)
    exact first.andThen fun _ => more.andThen fun _ => trivial

theorem failsOnly_inquireFirst (function : String) : ∀ es : List Expr,
    (∀ e ∈ es, ∀ name, e.Calls name → PathFunction.ofName? name = none → functions name) →
      (inquireFirst function es).FailsOnly (Misses functions)
  | [], _ => fun _ => nofun
  | e :: _, h => failsOnly_inquire e (h e List.mem_cons_self)

end

/-- An expression that fails at a function calls it, and it is none of the two that mean something. -/
theorem calls_of_eval_eq_unsupported {e : Expr} {change : Change} {name : String}
    (failed : e.eval change = .error (.unsupportedFunction name)) :
    e.Calls name ∧ PathFunction.ofName? name = none := by
  have fails := e.failsOnly_inquire fun name calls unknown => And.intro calls unknown
  rw [← e.answer_inquire change] at failed
  exact fails.of_answer failed name rfl

end Expr

/-! ### Formulas -/

/-- The functions of a formula that was read are those that its tree calls. -/
theorem Formula.mem_functions_of_parse {source function : String} {formula : Formula}
    (h : Formula.parse source = .ok formula) :
    function ∈ formula.names.functions ↔ formula.expr.Calls function := by
  obtain ⟨_, _, _, names⟩ := Formula.parse_eq_ok_iff.mp h
  rw [names, Expr.mem_functions_gathered]

/-- Neither the guard nor the last step from a value to a boolean fails at a function. -/
theorem Formula.eval_of_evaluate_unsupported {formula : Formula} {change : Change} {guard : Option Guard}
    {name : String}
    (failed : (formula.evaluate change guard).answer = .error (.eval (.unsupportedFunction name))) :
    formula.expr.eval change = .error (.unsupportedFunction name) := by
  have held : formula.holds change = .error (.eval (.unsupportedFunction name)) := by
    cases guard with
    | none => exact failed
    | some guard =>
      simp only [Formula.evaluate] at failed
      split at failed
      · cases failed
      · exact failed
  unfold Formula.holds at held
  split at held
  · cases held
  · rename_i e failure
    cases held
    exact failure

/-- **Gathered functions predict failures.** If the evaluation of a text that spells a formula fails at a
function, then the formula has gathered that function, and it is neither `changed` nor `get`. So a formula
that has gathered at most these two never fails at a function, for no change and under no guard. -/
theorem evaluate_unsupported_mem_functions {source : String} {formula : Formula}
    (parsed : Formula.parse source = .ok formula) (change : Change) (guard : Option Guard) :
    (∀ name, (evaluate source change guard).answer = .error (.eval (.unsupportedFunction name)) →
        name ∈ formula.names.functions ∧ name ≠ "changed" ∧ name ≠ "get") ∧
      ((∀ name ∈ formula.names.functions, name = "changed" ∨ name = "get") →
        ∀ name, (evaluate source change guard).answer ≠ .error (.eval (.unsupportedFunction name))) := by
  have predicted : ∀ name, (evaluate source change guard).answer = .error (.eval (.unsupportedFunction name)) →
      name ∈ formula.names.functions ∧ name ≠ "changed" ∧ name ≠ "get" := by
    intro name failed
    rw [evaluate, parsed] at failed
    obtain ⟨calls, unknown⟩ := Expr.calls_of_eval_eq_unsupported (Formula.eval_of_evaluate_unsupported failed)
    exact ⟨(Formula.mem_functions_of_parse parsed).mpr calls, PathFunction.ofName?_eq_none_iff.mp unknown⟩
  refine ⟨predicted, fun known name failed => ?_⟩
  obtain ⟨gathered, notChanged, notGet⟩ := predicted name failed
  rcases known name gathered with isChanged | isGet
  · exact notChanged isChanged
  · exact notGet isGet

/-- The call on the left is left out; the one in an argument is come to, and `Get` is not `get`. In the
second text a path is computed, and nothing but the two functions is called. -/
theorem evaluate_unsupported_mem_functions_nested :
    let e : Expr := .connect .or (.connect .and (.literal (.bool false)) (.call "sum" [.field "a"]))
      (.array [.call "changed" [.call "Get" [.literal (.string "a")]]])
    let e' : Expr := .call "changed" [.call "get" [.field "a"]]
    let change : Change := ⟨none, [("a", .string "b")]⟩
    Formula.parse "false and sum(a) or [changed(Get('a'))]" = .ok ⟨e, e.gather .none⟩ ∧
      "Get" ∈ (e.gather .none).functions ∧ Formula.parse "changed(get(a))" = .ok ⟨e', e'.gather .none⟩ ∧
      ∀ name, (evaluate "changed(get(a))" change none).answer ≠ .error (.eval (.unsupportedFunction name)) := by
  intro e e' change
  have parsed : Formula.parse "false and sum(a) or [changed(Get('a'))]" = .ok ⟨e, e.gather .none⟩ := by cbv
  have parsed' : Formula.parse "changed(get(a))" = .ok ⟨e', e'.gather .none⟩ := by cbv
  have failed : (evaluate "false and sum(a) or [changed(Get('a'))]" change none).answer =
      .error (.eval (.unsupportedFunction "Get")) := by cbv
  have two : ∀ name ∈ (e'.gather .none).functions, name = "changed" ∨ name = "get" := by
    intro name mem
    simpa [e', Expr.mem_gather_functions, Expr.calls_call_iff, Expr.not_calls_field, Names.none,
      NameSet.not_mem_empty, or_comm] using mem
  have gathered := (evaluate_unsupported_mem_functions parsed change none).1 "Get" failed
  have never := (evaluate_unsupported_mem_functions parsed' change none).2 two
  exact ⟨parsed, gathered.1, parsed', never⟩

end RecordRules
