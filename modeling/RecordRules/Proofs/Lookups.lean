/-
# What an evaluation looks up

An evaluation reads the record by paths only, and which path it reads next can depend
on what it has found. `Expr.inquire` says this without a record: it fails, is done
with a value, or asks for a path on one side and goes on with what is found there.
Answered from a change it is the evaluation (`answer_inquire`), and the paths it asks
for on the way, with what is found, are the lookups of the evaluation.

A text becomes a path when a path function takes it as its argument. It is either
written there as a literal, and then the expression mentions it, or it is the value of
a field or of a `get`, and then a lookup has found it: no other expression has a text
as its value. `Sourced` is this as a condition on inquiries, with what is known so far.

Key definitions: `Inquiry`, `Expr.inquire`, `Inquiry.lookups`, `Inquiry.Sourced`. Key
theorems: `Expr.answer_inquire`, `Expr.sourced_inquire`, `lookups_sourced`.
-/
import Mathlib
import RecordRules.Evaluate
import RecordRules.Proofs.Reading

namespace RecordRules

/-! ### Inquiries -/

/-- A side of a change. -/
inductive Side where
  | before
  | after
deriving DecidableEq

/-- The record on a side. -/
def Change.side? (change : Change) : Side → Option Record
  | .before => change.before
  | .after => some change.after

/-- The value at a path on a side. -/
def Change.findOn? (change : Change) (side : Side) (path : String) : Option Value :=
  (change.side? side).bind fun record => record.find? path

/-- A computation that reads a change one path after the other. -/
inductive Inquiry (α : Type) where
  | fail (error : EvalError)
  | done (result : α)
  | ask (side : Side) (path : String) (next : Option Value → Inquiry α)

/-- A path that is looked up in a record, and the value found there. -/
structure Lookup where
  side : Side
  path : String
  found : Option Value

namespace Inquiry

variable {α β : Type}

/-- Goes on with the result, unless there is none. -/
def andThen : Inquiry α → (α → Inquiry β) → Inquiry β
  | fail error, _ => fail error
  | done result, rest => rest result
  | ask side path next, rest => ask side path fun found => (next found).andThen rest

/-- The result where the change answers. -/
def answer (change : Change) : Inquiry α → Except EvalError α
  | fail error => .error error
  | done result => .ok result
  | ask side path next => (next (change.findOn? side path)).answer change

/-- The lookups where the change answers, in order. A side without a record has nothing to look
into. -/
def lookups (change : Change) : Inquiry α → List Lookup
  | fail _ => []
  | done _ => []
  | ask side path next =>
    match change.side? side with
    | none => (next none).lookups change
    | some record => ⟨side, path, record.find? path⟩ :: (next (record.find? path)).lookups change

theorem answer_andThen (change : Change) (x : Inquiry α) (rest : α → Inquiry β) :
    (x.andThen rest).answer change = (x.answer change).bind fun result => (rest result).answer change := by
  induction x with
  | fail | done => rfl
  | ask side path next ih => exact ih (change.findOn? side path)

end Inquiry

/-! ### The inquiry of an expression -/

/-- The field differs between the two sides. -/
def differs : Option Value → Option Value → Bool
  | none, none => false
  | some before, some after => !before.normalize.deepEqual after.normalize
  | _, _ => true

/-- What a path function asks about a path. -/
def PathFunction.inquire (path : String) : PathFunction → Inquiry Value
  | changed =>
    .ask .before path fun before => .ask .after path fun after => .done (.bool (differs before after))
  | get => .ask .after path fun after => .done (after.getD .null)

/-- The answer of a comparison, or why there is none. -/
def Comparison.inquire (op : Comparison) (left right : Value) : Inquiry Value :=
  match op.apply left.normalize right.normalize with
  | .error e => .fail e
  | .ok answer => .done (.bool answer)

namespace Expr

mutual

/-- What the value of an expression takes. -/
def inquire : Expr → Inquiry Value
  | literal value => .done value.value
  | field path => .ask .after path fun
    | some value => .done value
    | none => .ask .before path fun found => .done (found.getD .null)
  | array items => (inquireList items).andThen fun values => .done (.array values)
  | connect op left right => left.inquire.andThen fun leftValue =>
    if op.settledBy leftValue.isTruthy then .done (.bool leftValue.isTruthy)
    else right.inquire.andThen fun rightValue => .done (.bool rightValue.isTruthy)
  | compare op left right =>
    left.inquire.andThen fun leftValue =>
      right.inquire.andThen fun rightValue => op.inquire leftValue rightValue
  | call name args =>
    match PathFunction.ofName? name with
    | none => .fail (.unsupportedFunction name)
    | some function => (inquireFirst name args).andThen fun
      | .string path => function.inquire path
      | other => .fail (.invalidPathArgument name other.typeName)

/-- What the values of expressions take, up to the first that has none. -/
def inquireList : List Expr → Inquiry (List Value)
  | [] => .done []
  | item :: rest =>
    item.inquire.andThen fun value => (inquireList rest).andThen fun values => .done (value :: values)

/-- What the argument of a function takes. -/
def inquireFirst (name : String) : List Expr → Inquiry Value
  | [] => .fail (.invalidPathArgument name "no argument")
  | first :: _ => first.inquire

end

/-! ### Evaluation answers the inquiry -/

theorem answer_pathInquire (change : Change) (path : String) (function : PathFunction) :
    (function.inquire path).answer change = .ok (change.apply path function) := by
  cases function <;> rfl

theorem answer_compare (change : Change) (op : Comparison) (left right : Value) :
    (op.inquire left right).answer change =
      match op.apply left.normalize right.normalize with
      | .error e => .error e
      | .ok answer => .ok (.bool answer) := by
  unfold Comparison.inquire
  cases op.apply left.normalize right.normalize <;> rfl

mutual

/-- **Evaluation is an inquiry.** The value for a change is what its answers lead to, so nothing but
the lookups is read from the record. -/
theorem answer_inquire (change : Change) : ∀ e : Expr, e.inquire.answer change = e.eval change
  | .literal _ => rfl
  | .field path => by
    unfold inquire eval Change.find? Change.findAfter?
    simp only [Inquiry.answer, Change.findOn?, Change.side?, Option.bind_some]
    cases change.after.find? path <;> rfl
  | .array items => by
    rw [inquire, eval, Inquiry.answer_andThen, answer_inquireList change items]
    cases evalList change items <;> rfl
  | .connect op left right => by
    rw [inquire, eval, Inquiry.answer_andThen, answer_inquire change left]
    cases left.eval change with
    | error => rfl
    | ok leftValue =>
      by_cases settled : op.settledBy leftValue.isTruthy = true
      · simp only [Except.bind, if_pos settled]
        rfl
      · simp only [Except.bind, if_neg settled]
        rw [Inquiry.answer_andThen, answer_inquire change right]
        cases right.eval change <;> rfl
  | .compare op left right => by
    rw [inquire, eval, Inquiry.answer_andThen, answer_inquire change left]
    cases left.eval change with
    | error => rfl
    | ok leftValue =>
      simp only [Except.bind, Inquiry.answer_andThen, answer_inquire change right]
      cases right.eval change with
      | error => rfl
      | ok rightValue => exact answer_compare change op leftValue rightValue
  | .call name args => by
    rw [inquire, eval]
    cases PathFunction.ofName? name with
    | none => rfl
    | some function =>
      simp only [Inquiry.answer_andThen, answer_inquireFirst change name args]
      cases args with
      | nil => rfl
      | cons first rest =>
        simp only [evalFirst, Option.getD_some]
        cases first.eval change with
        | error => rfl
        | ok value =>
          cases value with
          | string path => exact answer_pathInquire change path function
          | _ => rfl

theorem answer_inquireList (change : Change) : ∀ es : List Expr,
    (inquireList es).answer change = evalList change es
  | [] => rfl
  | e :: rest => by
    rw [inquireList, evalList, Inquiry.answer_andThen, answer_inquire change e]
    cases e.eval change with
    | error => rfl
    | ok value =>
      simp only [Except.bind, Inquiry.answer_andThen, answer_inquireList change rest]
      cases evalList change rest <;> rfl

theorem answer_inquireFirst (change : Change) (name : String) : ∀ es : List Expr,
    (inquireFirst name es).answer change =
      (evalFirst change es).getD (.error (.invalidPathArgument name "no argument"))
  | [] => rfl
  | e :: _ => by rw [inquireFirst, evalFirst, answer_inquire change e, Option.getD_some]

end

end Expr

/-! ### Where paths come from -/

/-- A text that was found is known as well. -/
def learn (known : String → Prop) (found : Option Value) (text : String) : Prop :=
  known text ∨ found = some (.string text)

namespace Inquiry

variable {α β : Type} {known : String → Prop}

/-- Every path is known when it is asked for, and the result meets a condition on what is known
then. -/
def Sourced (post : (String → Prop) → α → Prop) : (String → Prop) → Inquiry α → Prop
  | _, fail _ => True
  | known, done result => post known result
  | known, ask _ path next => known path ∧ ∀ found, (next found).Sourced post (learn known found)

theorem Sourced.andThen {mid : (String → Prop) → α → Prop} {post : (String → Prop) → β → Prop}
    {x : Inquiry α} {rest : α → Inquiry β} (hx : x.Sourced mid known)
    (hrest : ∀ (later : String → Prop) result, (∀ text, known text → later text) → mid later result →
      (rest result).Sourced post later) : (x.andThen rest).Sourced post known := by
  induction x generalizing known with
  | fail => trivial
  | done result => exact hrest known result (fun _ h => h) hx
  | ask side path next ih =>
    refine ⟨hx.1, fun found => ih found (hx.2 found) fun later result h => ?_⟩
    exact hrest later result fun text ht => h text (.inl ht)

/-- The path of a lookup is known before or found by an earlier one. -/
theorem Sourced.lookups {post : (String → Prop) → α → Prop} {x : Inquiry α} (h : x.Sourced post known)
    (change : Change) {earlier later : List Lookup} {look : Lookup}
    (hl : x.lookups change = earlier ++ look :: later) :
    known look.path ∨ ∃ past ∈ earlier, past.found = some (.string look.path) := by
  induction x generalizing known earlier with
  | fail | done => simp [Inquiry.lookups] at hl
  | ask side path next ih =>
    unfold Inquiry.lookups at hl
    split at hl
    · have := ih none (h.2 none) hl
      simpa [learn] using this
    · cases earlier with
      | nil =>
        cases hl
        exact .inl h.1
      | cons first earlier =>
        obtain ⟨rfl, more⟩ := List.cons_eq_cons.mp hl
        rcases ih _ (h.2 _) more with (before | found) | ⟨past, mem, found⟩
        · exact .inl before
        · exact .inr ⟨_, List.mem_cons_self, found⟩
        · exact .inr ⟨past, List.mem_cons_of_mem _ mem, found⟩

/-- What a lookup has found is what the record holds. -/
theorem found_of_mem_lookups (change : Change) {x : Inquiry α} {look : Lookup} (h : look ∈ x.lookups change) :
    look.found = change.findOn? look.side look.path := by
  induction x with
  | fail | done => cases h
  | ask side path next ih =>
    unfold Inquiry.lookups at h
    split at h
    · exact ih none h
    · rename_i record hs
      rcases List.mem_cons.mp h with rfl | h
      · rw [Change.findOn?, hs, Option.bind_some]
      · exact ih _ h

end Inquiry

namespace Expr

/-- A text as value is known, or the expression is the literal. -/
def TextFrom (e : Expr) (known : String → Prop) (value : Value) : Prop :=
  ∀ text, value = .string text → known text ∨ e = .literal (.string text)

variable {known : String → Prop}

theorem textFrom_found (e : Expr) (found : Option Value) :
    e.TextFrom (learn known found) (found.getD .null) := by
  intro text h
  cases found with
  | none => cases h
  | some value => exact .inl (.inr (congrArg some h))

theorem sourced_pathInquire {e : Expr} {path : String} (h : known path) (function : PathFunction) :
    (function.inquire path).Sourced e.TextFrom known := by
  cases function with
  | changed => exact ⟨h, fun _ => ⟨.inl h, fun _ _ => nofun⟩⟩
  | get => exact ⟨h, e.textFrom_found⟩

mutual

/-- **Sources of paths.** If the paths that an expression mentions are known, then each path that it
asks for is known when it does, and a text is its value only if it is known or the expression itself. -/
theorem sourced_inquire {known : String → Prop} : ∀ e : Expr, (∀ path, e.Mentions path → known path) →
    e.inquire.Sourced e.TextFrom known
  | .literal value, _ => by
    intro text h
    cases value <;> cases h
    exact .inr rfl
  | .field path, h => by
    refine ⟨h path .field, fun found => ?_⟩
    cases found with
    | some value => exact textFrom_found (.field path) (some value)
    | none => exact ⟨.inl (h path .field), textFrom_found (.field path)⟩
  | .array items, h => by
    refine (sourced_inquireList items fun e mem path hp => h path (.inArray mem hp)).andThen ?_
    exact fun _ _ _ _ _ => nofun
  | .connect op left right, h => by
    have asked := sourced_inquire left fun path hp => h path (.connectLeft hp)
    refine asked.andThen fun later leftValue grown _ => ?_
    by_cases settled : op.settledBy leftValue.isTruthy = true
    · rw [if_pos settled]
      exact fun _ => nofun
    · rw [if_neg settled]
      refine (sourced_inquire right fun path hp => grown path (h path (.connectRight hp))).andThen ?_
      exact fun _ _ _ _ _ => nofun
  | .compare op left right, h => by
    have asked := sourced_inquire left fun path hp => h path (.compareLeft hp)
    refine asked.andThen fun later leftValue grown _ => ?_
    refine (sourced_inquire right fun path hp => grown path (h path (.compareRight hp))).andThen ?_
    intro _ rightValue _ _
    unfold Comparison.inquire
    cases op.apply leftValue.normalize rightValue.normalize with
    | error => trivial
    | ok => exact fun _ => nofun
  | .call name [], _ => by
    unfold inquire
    cases PathFunction.ofName? name <;> trivial
  | .call name (first :: rest), h => by
    unfold inquire
    cases hf : PathFunction.ofName? name with
    | none => trivial
    | some function =>
      refine (sourced_inquire first fun path hp => h path (.inCall List.mem_cons_self hp)).andThen ?_
      intro later value grown hvalue
      cases value with
      | string path =>
        have hpath : later path := by
          rcases hvalue path rfl with found | written
          · exact found
          · -- a literal argument is a path that the call mentions
            refine grown path (h path (.argument ?_))
            rw [written]
            simp only [literalPath?, hf]
        exact sourced_pathInquire hpath function
      | _ => trivial

theorem sourced_inquireList {known : String → Prop} : ∀ es : List Expr,
    (∀ e ∈ es, ∀ path, e.Mentions path → known path) → (inquireList es).Sourced (fun _ _ => True) known
  | [], _ => trivial
  | e :: rest, h => by
    refine (sourced_inquire e (h e List.mem_cons_self)).andThen fun later value grown _ => ?_
    have known : ∀ e ∈ rest, ∀ path, e.Mentions path → later path :=
      fun e mem path hp => grown path (h e (List.mem_cons_of_mem _ mem) path hp)
    exact (sourced_inquireList rest known).andThen fun _ _ _ _ => trivial

end

end Expr

/-! ### The lookups of a formula -/

/-- **Every path has a source.** The evaluation of a formula that was read is its inquiry; each path
that it looks up is one that the formula names, or exactly the text of a string that an earlier lookup
has found in the record. -/
theorem lookups_sourced {source : String} {formula : Formula} (h : Formula.parse source = .ok formula)
    (change : Change) :
    formula.expr.inquire.answer change = formula.expr.eval change ∧
      (∀ look ∈ formula.expr.inquire.lookups change, look.found = change.findOn? look.side look.path) ∧
      ∀ earlier look later, formula.expr.inquire.lookups change = earlier ++ look :: later →
        look.path ∈ formula.names.fields ∨ ∃ past ∈ earlier, past.found = some (.string look.path) := by
  refine ⟨formula.expr.answer_inquire change, fun _ => Inquiry.found_of_mem_lookups change, ?_⟩
  intro earlier look later hl
  have known : ∀ path, formula.expr.Mentions path → path ∈ formula.names.fields :=
    fun path => (Formula.mem_fields_of_parse h).mpr
  exact (formula.expr.sourced_inquire known).lookups change hl

/-- The record chooses the path of the outer call. -/
theorem lookups_sourced_nested_get :
    let e : Expr := .call "get" [.call "get" [.literal (.string "pointer")]]
    let change : Change := ⟨none, [("pointer", .string "target")]⟩
    let first : Lookup := ⟨.after, "pointer", some (.string "target")⟩
    Formula.parse "get(get('pointer'))" = .ok ⟨e, e.gather .none⟩ ∧
      e.inquire.lookups change = [first] ++ ⟨.after, "target", none⟩ :: [] ∧
      ("target" ∈ (e.gather .none).fields ∨ ∃ past ∈ [first], past.found = some (.string "target")) := by
  intro e change first
  have parsed : Formula.parse "get(get('pointer'))" = .ok ⟨e, e.gather .none⟩ := by cbv
  have looked : e.inquire.lookups change = [first] ++ ⟨.after, "target", none⟩ :: [] := by cbv
  exact ⟨parsed, looked, (lookups_sourced parsed change).2.2 [first] _ [] looked⟩

end RecordRules
