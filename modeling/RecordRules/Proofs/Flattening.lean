/-
# Changes that went through plain JSON

Plain JSON has no decimals and no dates. A record that goes through it comes back with texts in
their places, and texts have a place in the order of their own: the same one
(`Value.comparable?_flattened`). So the order does not see whether a record went through plain
JSON, as long as its numbers are finite: JSON has no others.

Where a path leads in the one record it leads in the other, to what came back of the value
(`Path.descend_flattened`), and a text is the same text. So a comparison that asks for the order
and has an answer keeps it. There may be new answers, for a decimal names no field, but the text
that comes back of it may name one that a function then reads. Where paths are written out there
are none (`Expr.compared?_flattened`).

Key definitions: `Value.flattened`, `Value.Flattens`, `Change.flattened`, `Expr.comparable?`. Key
theorems: `Value.comparable?_flattened`, `Path.descend_flattened`, `Expr.comparable?_flattened`,
`flattened_orders_alike`.
-/
import RecordRules.Proofs.Descent
import RecordRules.Proofs.Guarding
import RecordRules.Proofs.Mirroring
import RecordRules.Proofs.Persistence
import RecordRules.Proofs.ScalarTexts

namespace RecordRules

namespace Value

/-! ### Values that went through plain JSON -/

/-- What comes back of a value that is written as plain JSON. -/
def flattened (value : Value) : Value := ofPlain value.toPlain

/-- Every number in the value is finite and every date in it has a year of four digits. -/
def Flattens (value : Value) : Prop :=
  ∀ part : Value, part.Within value → (∀ x, part = .number x → x.isFinite = true) ∧
    ∀ t, part = .date t → t.HasFourDigitYear

theorem flattened_number {x : Binary64} (finite : x.isFinite = true) : (number x).flattened = .number x := by
  rw [flattened, toPlain, Json.binary64, if_pos finite]
  rfl

/-- **One place before and after.** A decimal and a date come back as their texts, and other values that have a
place come back as they were. -/
theorem comparable?_flattened {v : Value} (flattens : v.Flattens) :
    SamePlace v.flattened.comparable? v.comparable? := by
  obtain ⟨number, date⟩ := flattens v .self
  cases v with
  | number x =>
    rw [flattened_number (number x rfl)]
    exact .refl _
  | decimal d => exact samePlace_text (v := .decimal d) trivial
  | date t => exact samePlace_text (v := .date t) (date t rfl)
  | string s => exact .refl (string s).comparable?
  | _ => exact .none

/-! Arrays and maps come back part by part. -/

theorem flattened_array (items : List Value) : (array items).flattened = .array (items.map flattened) := by
  have each (items : List Value) : itemsOfPlain (itemsToPlain items) = items.map flattened := by
    induction items with
    | nil => rfl
    | cons item rest ih => rw [itemsToPlain, itemsOfPlain, ih, List.map_cons, flattened]
  rw [flattened, toPlain, ofPlain, each]

/-- What comes back of the entries of a map. -/
def flattenedEntries (entries : List (String × Value)) : List (String × Value) :=
  entries.map fun entry => (entry.1, entry.2.flattened)

theorem flattened_map {entries : List (String × Value)} (ascending : Keyed.Ascending entries) :
    (map entries).flattened = .map (flattenedEntries entries) := by
  have each (entries : List (String × Value)) :
      entriesOfPlain (entriesToPlain entries) = flattenedEntries entries := by
    induction entries with
    | nil => rfl
    | cons entry rest ih =>
      rw [entriesToPlain, entriesOfPlain, ih]
      rfl
  have names : Keyed.Ascending (flattenedEntries entries) := by
    rwa [Keyed.Ascending, flattenedEntries, List.map_map]
  rw [flattened, toPlain, ofPlain, each, Keyed.ofList_of_ascending names]

theorem lookup_flattenedEntries (name : String) (entries : List (String × Value)) :
    (flattenedEntries entries).lookup name = (entries.lookup name).map flattened := by
  induction entries with
  | nil => rfl
  | cons entry rest ih =>
    rw [flattenedEntries, List.map_cons, List.lookup_cons, List.lookup_cons]
    cases name == entry.1 with
    | true => rfl
    | false => exact ih

/-! ### Parts of what is kept -/

theorem WellFormed.of_within {v w : Value} (well : w.WellFormed) (within : v.Within w) : v.WellFormed := by
  induction within with
  | self => exact well
  | item mem _ ih => exact ih (itemsWellFormed_iff.mp well _ mem)
  | entry mem _ ih => exact ih (entriesWellFormed_iff.mp well.2 _ mem)

theorem Flattens.of_within {v w : Value} (flattens : w.Flattens) (within : v.Within w) : v.Flattens :=
  fun part inner => flattens part (inner.trans within)

theorem flattens_map_iff {entries : List (String × Value)} :
    (map entries).Flattens ↔ ∀ entry ∈ entries, entry.2.Flattens :=
  forall_within_map_iff.trans (and_iff_right ⟨nofun, nofun⟩)

/-- What is read for an absent field comes back as what is read for it. -/
theorem getD_flattened (found : Option Value) : (found.map flattened).getD .null = (found.getD .null).flattened := by
  cases found <;> rfl

theorem flattens_getD {found : Option Value} (each : ∀ v, found = some v → v.Flattens) :
    (found.getD .null).Flattens := by
  cases found with
  | none => exact (forall_within_scalar_iff rfl rfl).mpr ⟨nofun, nofun⟩
  | some v => exact each v rfl

end Value

namespace Path

variable {v w : Value}

/-- One step leads to what came back of the value that it led to. -/
theorem enter_flattened (well : v.WellFormed) (segment : List Char) :
    enter v.flattened segment = (enter v segment).map Value.flattened := by
  cases v with
  | map entries =>
    rw [Value.flattened_map well.1]
    exact Value.lookup_flattenedEntries _ entries
  | array items =>
    rw [Value.flattened_array, enter, enter]
    cases Text.word64? segment with
    | none => rfl
    | some i => exact List.getElem?_map
  | number x =>
    rw [Value.flattened, Value.toPlain, Json.binary64]
    split <;> rfl
  | _ => rfl

/-- **Paths lead on.** -/
theorem descend_flattened (well : v.WellFormed) (way : List (List Char)) :
    descend v.flattened way = (descend v way).map Value.flattened := by
  induction way generalizing v with
  | nil => rw [descend_nil, descend_nil, Option.map_some]
  | cons segment rest ih =>
    rw [descend_cons, descend_cons, enter_flattened well]
    cases entered : enter v segment with
    | none => rfl
    | some u => exact ih (well.of_within (within_enter entered))

end Path

/-! ### Changes that went through plain JSON -/

theorem Record.find?_flattened {record : Record} (well : (Value.map record).WellFormed) (path : String) :
    Record.find? (Value.flattenedEntries record) path = (Record.find? record path).map Value.flattened := by
  have led := Path.descend_flattened well (Path.segments path)
  rwa [Value.flattened_map well.1] at led

namespace Change

/-- A side of a change as plain JSON. -/
def sideToPlain (record : Record) : Json := .object (Value.entriesToPlain record)

/-- What comes back when both sides are written as plain JSON. -/
def flattened (change : Change) : Change :=
  ⟨change.before.map Value.flattenedEntries, Value.flattenedEntries change.after⟩

theorem recordOfPlain_sideToPlain {record : Record} (well : (Value.map record).WellFormed) (side : String) :
    recordOfPlain side (sideToPlain record) = .ok (Value.flattenedEntries record) := by
  have read : Value.ofPlain (sideToPlain record) = .map (Value.flattenedEntries record) := Value.flattened_map well.1
  rw [recordOfPlain, read]

section
variable {change : Change}

theorem ofPlain_sideToPlain (well : change.WellFormed) :
    ofPlain (change.before.map sideToPlain) (sideToPlain change.after) = .ok change.flattened := by
  obtain ⟨before, after⟩ := change
  have readAfter := recordOfPlain_sideToPlain well.after "after"
  cases before with
  | none =>
    rw [ofPlain, readAfter]
    rfl
  | some record =>
    have readBefore := recordOfPlain_sideToPlain (well.before record rfl) "before"
    have nonNull : Json.nonNull? (sideToPlain record) = some (sideToPlain record) := rfl
    rw [ofPlain, readAfter, Option.map_some, Option.bind_some, nonNull, Option.mapM_some, readBefore]
    rfl

theorem findAfter?_flattened (well : change.WellFormed) (path : String) :
    change.flattened.findAfter? path = (change.findAfter? path).map Value.flattened :=
  Record.find?_flattened well.after path

theorem findBefore?_flattened (well : change.WellFormed) (path : String) :
    change.flattened.findBefore? path = (change.findBefore? path).map Value.flattened := by
  obtain ⟨before, after⟩ := change
  cases before with
  | none => rfl
  | some record => exact Record.find?_flattened (well.before record rfl) path

theorem find?_flattened (well : change.WellFormed) (path : String) :
    change.flattened.find? path = (change.find? path).map Value.flattened := by
  rw [find?, find?, findAfter?_flattened well, findBefore?_flattened well, Option.map_or]

theorem flattens_of_findAfter? (flattens : change.EachField Value.Flattens) {path : String} {v : Value}
    (found : change.findAfter? path = some v) : v.Flattens :=
  (Value.flattens_map_iff.mpr flattens.1).of_within (Record.within_find? found)

theorem flattens_of_find? (flattens : change.EachField Value.Flattens) {path : String} {v : Value}
    (found : change.find? path = some v) : v.Flattens := by
  rcases Option.or_eq_some_iff.mp found with after | ⟨_, before⟩
  · exact flattens_of_findAfter? flattens after
  · obtain ⟨record, some, found⟩ := Option.bind_eq_some_iff.mp before
    exact (Value.flattens_map_iff.mpr (flattens.2 record some)).of_within (Record.within_find? found)

end

end Change

/-! ### Expressions -/

namespace Expr

/-- The number by which the value of the expression is compared, if it has both. -/
def comparable? (change : Change) (e : Expr) : Option Binary64 := (e.eval change).toOption.bind Value.comparable?

/-- The path that a call is given, if its first argument has a text as its value. -/
def path? (change : Change) (args : List Expr) : Option String :=
  (evalFirst change args).bind fun value => value.toOption.bind Value.string?

theorem toOption_eval_call (change : Change) (name : String) (args : List Expr) :
    ((call name args).eval change).toOption = (PathFunction.ofName? name).bind fun function =>
      (path? change args).map fun path => change.apply path function := by
  unfold eval path?
  cases PathFunction.ofName? name with
  | none => rfl
  | some function =>
    cases evalFirst change args with
    | none => rfl
    | some value =>
      cases value with
      | error => rfl
      | ok v => cases v <;> rfl

section
variable {change : Change} {v : Value}

theorem eval_connect_eq_ok {op : Connective} {l r : Expr} (value : (connect op l r).eval change = .ok v) :
    ∃ answer, v = .bool answer := by
  rw [eval] at value
  split at value
  · cases value
  · split at value
    · cases value
      exact ⟨_, rfl⟩
    · split at value
      · cases value
      · cases value
        exact ⟨_, rfl⟩

theorem eval_compare_eq_ok {op : Comparison} {l r : Expr} (value : (compare op l r).eval change = .ok v) :
    ∃ answer, v = .bool answer := by
  have answer := toOption_eval_compare change op l r
  rw [value] at answer
  obtain ⟨answer, _, same⟩ := Option.map_eq_some_iff.mp answer.symm
  exact ⟨answer, same.symm⟩

theorem eval_array_eq_ok {items : List Expr} (value : (array items).eval change = .ok v) :
    ∃ values, v = .array values := by
  rw [eval] at value
  split at value
  · cases value
    exact ⟨_, rfl⟩
  · cases value

theorem comparable?_eq_none {e : Expr} (noPlace : ∀ v, e.eval change = .ok v → v.comparable? = none) :
    e.comparable? change = none := by
  unfold comparable?
  cases value : e.eval change with
  | error => rfl
  | ok v => exact noPlace v value

theorem comparable?_connect (change : Change) (op : Connective) (l r : Expr) :
    (connect op l r).comparable? change = none :=
  comparable?_eq_none fun v value => by
    obtain ⟨answer, rfl⟩ := eval_connect_eq_ok value
    rfl

theorem comparable?_compare (change : Change) (op : Comparison) (l r : Expr) :
    (compare op l r).comparable? change = none :=
  comparable?_eq_none fun v value => by
    obtain ⟨answer, rfl⟩ := eval_compare_eq_ok value
    rfl

theorem comparable?_array (change : Change) (items : List Expr) : (array items).comparable? change = none :=
  comparable?_eq_none fun v value => by
    obtain ⟨values, rfl⟩ := eval_array_eq_ok value
    rfl

end

/-- A comparison of the order looks at the places of its sides only. -/
theorem compared?_by_place {op : Comparison} (ordering : op.IsOrdering) :
    ∃ rel : Binary64 → Binary64 → Bool, (∀ x x' y y', x.Alike x' → y.Alike y' → rel x y = rel x' y') ∧
      ∀ change l r, compared? change op l r = Option.map₂ rel (comparable? change l) (comparable? change r) := by
  obtain ⟨rel, places, answer⟩ := ordering.exists_relation
  refine ⟨rel, places, fun change l r => ?_⟩
  unfold compared? comparable?
  cases l.eval change with
  | error => rfl
  | ok v =>
    cases r.eval change with
    | error => exact (Option.map₂_none_right _ _).symm
    | ok w =>
      show op.answer? v.normalize w.normalize = Option.map₂ rel v.comparable? w.comparable?
      rw [answer, Value.comparable?_normalize, Value.comparable?_normalize]

section
variable {change : Change}

mutual

/-- **Texts stay.** What is a text before is that text afterwards. -/
theorem eval_flattened_string (well : change.WellFormed) : ∀ (e : Expr) (s : String),
    e.eval change = .ok (.string s) → e.eval change.flattened = .ok (.string s)
  | .literal _, _, value => value
  | .field path, s, value => by
    have read : (change.find? path).getD .null = .string s := Except.ok.inj value
    rw [eval, Change.find?_flattened well, Value.getD_flattened, read]
    rfl
  | .array _, _, value => by cases (eval_array_eq_ok value).choose_spec
  | .connect _ _ _, _, value => by cases (eval_connect_eq_ok value).choose_spec
  | .compare _ _ _, _, value => by cases (eval_compare_eq_ok value).choose_spec
  | .call name args, s, value => by
    rw [← toOption_eq_some_iff, toOption_eval_call] at value ⊢
    obtain ⟨function, named, value⟩ := Option.bind_eq_some_iff.mp value
    obtain ⟨path, given, value⟩ := Option.map_eq_some_iff.mp value
    rw [named, Option.bind_some, path?_flattened well args path given, Option.map_some]
    cases function with
    | changed => cases value
    | get =>
      have read : (change.findAfter? path).getD .null = .string s := value
      rw [Change.apply, Change.findAfter?_flattened well, Value.getD_flattened, read]
      rfl

/-- A path that a call is given is a text, so it stays. -/
theorem path?_flattened (well : change.WellFormed) : ∀ (args : List Expr) (path : String),
    path? change args = some path → path? change.flattened args = some path
  | [], _, given => by cases given
  | first :: _, path, given => by
    have given : (first.eval change).toOption.bind Value.string? = some path := given
    obtain ⟨v, value, text⟩ := Option.bind_eq_some_iff.mp given
    have same : v = .string path := by
      cases v <;> cases text
      rfl
    rw [same, toOption_eq_some_iff] at value
    show (first.eval change.flattened).toOption.bind Value.string? = some path
    rw [eval_flattened_string well first path value]
    rfl

end

/-- **Expressions keep their place.** A call does if it is given the same path. -/
theorem comparable?_flattened (well : change.WellFormed) (flattens : change.EachField Value.Flattens) {e : Expr}
    (samePath : ∀ name args, e = call name args → PathFunction.ofName? name ≠ none →
      path? change.flattened args = path? change args) :
    SamePlace (e.comparable? change.flattened) (e.comparable? change) := by
  cases e with
  | literal value => exact .refl value.value.comparable?
  | field path =>
    show SamePlace ((change.flattened.find? path).getD .null).comparable? ((change.find? path).getD .null).comparable?
    rw [Change.find?_flattened well, Value.getD_flattened]
    exact Value.comparable?_flattened (Value.flattens_getD fun v => Change.flattens_of_find? flattens)
  | array items =>
    rw [comparable?_array, comparable?_array]
    exact .none
  | connect op l r =>
    rw [comparable?_connect, comparable?_connect]
    exact .none
  | compare op l r =>
    rw [comparable?_compare, comparable?_compare]
    exact .none
  | call name args =>
    unfold comparable?
    rw [toOption_eval_call, toOption_eval_call]
    cases named : PathFunction.ofName? name with
    | none => exact .none
    | some function =>
      rw [samePath name args rfl (by simp [named])]
      cases path? change args with
      | none => exact .none
      | some path =>
        cases function with
        | changed => exact .none
        | get =>
          show SamePlace ((change.flattened.findAfter? path).getD .null).comparable?
            ((change.findAfter? path).getD .null).comparable?
          rw [Change.findAfter?_flattened well, Value.getD_flattened]
          exact Value.comparable?_flattened (Value.flattens_getD fun v => Change.flattens_of_findAfter? flattens)

/-- A written path is given again. -/
theorem comparable?_flattened_of_writesPath (well : change.WellFormed)
    (flattens : change.EachField Value.Flattens) {e : Expr} (writes : e.WritesPath) :
    SamePlace (e.comparable? change.flattened) (e.comparable? change) := by
  refine comparable?_flattened well flattens ?_
  rintro name args rfl known
  by_cases hargs : args = []
  · rw [hargs]
    rfl
  · obtain ⟨path, rest, rfl⟩ := writes known hargs
    rfl

/-- A call whose value has a place was given a path, and is given it again. -/
theorem comparable?_flattened_of_some (well : change.WellFormed) (flattens : change.EachField Value.Flattens)
    {e : Expr} {x : Binary64} (placed : e.comparable? change = some x) :
    SamePlace (e.comparable? change.flattened) (e.comparable? change) := by
  refine comparable?_flattened well flattens ?_
  rintro name args rfl _
  rw [comparable?, toOption_eval_call] at placed
  obtain ⟨value, evaluated, _⟩ := Option.bind_eq_some_iff.mp placed
  obtain ⟨function, _, called⟩ := Option.bind_eq_some_iff.mp evaluated
  obtain ⟨path, given, _⟩ := Option.map_eq_some_iff.mp called
  rw [given, path?_flattened well args path given]

variable {op : Comparison} {l r : Expr}

/-- **Verdicts stay.** -/
theorem compared?_flattened_of_some (well : change.WellFormed) (flattens : change.EachField Value.Flattens)
    (ordering : op.IsOrdering) {answer : Bool} (compared : compared? change op l r = some answer) :
    compared? change.flattened op l r = some answer := by
  obtain ⟨rel, places, found⟩ := compared?_by_place ordering
  rw [found] at compared
  obtain ⟨x, y, left, right, _⟩ := Option.map₂_eq_some_iff.mp compared
  rw [found, ← compared, Comparison.map₂_samePlace places (comparable?_flattened_of_some well flattens left)
    (comparable?_flattened_of_some well flattens right)]

/-- Without computed paths there are no new verdicts. -/
theorem compared?_flattened (well : change.WellFormed) (flattens : change.EachField Value.Flattens)
    (ordering : op.IsOrdering) (left : l.WritesPath) (right : r.WritesPath) :
    compared? change.flattened op l r = compared? change op l r := by
  obtain ⟨rel, places, found⟩ := compared?_by_place ordering
  rw [found, found, Comparison.map₂_samePlace places (comparable?_flattened_of_writesPath well flattens left)
    (comparable?_flattened_of_writesPath well flattens right)]

end

end Expr

/-- **The text of a scalar orders like the scalar.** The text of a finite number, of a decimal, and of a date of a
year of four digits has a number in the order, equal to that of the value, and in every comparison of the order,
on either side, the text can stand for the value. A change whose numbers are finite and whose dates have such
years can be written as plain JSON and read again, decimals and dates becoming texts, and every answer about the
order stays. Nor does one come about, or an error go away, if paths are written out. -/
theorem flattened_orders_alike :
    (∀ v : Value, v.Legible →
      (∃ x y, (Value.string v.text).comparable = .ok x ∧ v.comparable = .ok y ∧ x.eq y = true) ∧
        ∀ op : Comparison, op.IsOrdering → ∀ w answer,
          (op.apply (.string v.text) w = .ok answer ↔ op.apply v w = .ok answer) ∧
            (op.apply w (.string v.text) = .ok answer ↔ op.apply w v = .ok answer)) ∧
      ∀ change : Change, change.WellFormed → change.EachField Value.Flattens →
        ∃ flat, Change.ofPlain (change.before.map Change.sideToPlain) (Change.sideToPlain change.after) = .ok flat ∧
          ∀ op : Comparison, op.IsOrdering → ∀ l r : Expr,
            (∀ answer, Expr.Gives change (.compare op l r) answer → Expr.Gives flat (.compare op l r) answer) ∧
              (l.WritesPath → r.WritesPath →
                (∀ answer, Expr.Gives flat (.compare op l r) answer ↔
                  Expr.Gives change (.compare op l r) answer) ∧
                  (Expr.Fails flat (.compare op l r) ↔ Expr.Fails change (.compare op l r))) := by
  refine ⟨fun v legible => ⟨?_, fun op ordering w answer => ?_⟩, fun change well flattens => ?_⟩
  · obtain ⟨x, y, text, value, alike⟩ := Value.comparable?_text legible
    refine ⟨x, y, Value.comparable_eq_ok_iff.mpr text, Value.comparable_eq_ok_iff.mpr value, ?_⟩
    refine alike.resolve_right ?_
    rintro ⟨_, rfl⟩
    rw [(Value.comparable?_eq_nan_iff v).mp value] at legible
    cases legible
  · have same := Value.samePlace_text legible
    have other := SamePlace.refl w.comparable?
    rw [Comparison.apply_eq_ok_iff, Comparison.apply_eq_ok_iff, Comparison.apply_eq_ok_iff, Comparison.apply_eq_ok_iff,
      ordering.answer?_eq same other, ordering.answer?_eq other same]
    exact ⟨.rfl, .rfl⟩
  · refine ⟨change.flattened, Change.ofPlain_sideToPlain well, fun op ordering l r => ⟨fun answer => ?_, ?_⟩⟩
    · rw [Expr.gives_compare_iff, Expr.gives_compare_iff]
      exact Expr.compared?_flattened_of_some well flattens ordering
    · intro left right
      have same := Expr.compared?_flattened well flattens ordering left right
      refine ⟨fun answer => ?_, ?_⟩
      · rw [Expr.gives_compare_iff, Expr.gives_compare_iff, same]
      · rw [Expr.fails_compare_iff, Expr.fails_compare_iff, same]

/-- A leap second before 1970 is behind the next day, with its text as without. An item of an array, a decimal, is
at the place of a number. -/
theorem flattened_orders_alike_nested :
    let due : Instant := ⟨-1, 1999999999, by decide⟩
    let price : Value := .decimal ⟨"1.50", by decide⟩
    let sum : Value := .number (.ofBits 0x3FF8000000000000)
    let change : Change := ⟨some [("due", .date due)], [("order", .map [("fees", .array [price]), ("sum", sum)])]⟩
    let late : Expr := .compare .greater (.field "due") (.literal (.string "1970-01-01"))
    let fee : Expr := .call "get" [.literal (.string "order.fees.0")]
    let covered : Expr := .compare .greaterOrEqual (.field "order.sum") fee
    (Value.date due).text = "1969-12-31T23:59:60.999Z" ∧
      (∃ x y, (Value.string (Value.date due).text).comparable = .ok x ∧ (Value.date due).comparable = .ok y ∧
        x.eq y = true) ∧
      change.WellFormed ∧ change.EachField Value.Flattens ∧
      ∃ flat, Change.ofPlain (change.before.map Change.sideToPlain) (Change.sideToPlain change.after) = .ok flat ∧
        late.Gives flat true ∧ covered.Gives flat true := by
  intro due price sum change late fee covered
  obtain ⟨scalars, changes⟩ := flattened_orders_alike
  have year : due.HasFourDigitYear := by decide +kernel
  have well : change.WellFormed := by
    refine ⟨⟨by decide, ⟨by decide, ⟨trivial, trivial⟩, trivial, trivial⟩, trivial⟩, ?_⟩
    rintro _ ⟨⟩
    exact ⟨by decide, trivial, trivial⟩
  have flattens : change.EachField Value.Flattens := by
    have dated : Value.Flattens (.date due) :=
      (Value.forall_within_scalar_iff rfl rfl).mpr ⟨nofun, fun t same => Value.date.inj same ▸ year⟩
    have priced : price.Flattens := (Value.forall_within_scalar_iff rfl rfl).mpr ⟨nofun, nofun⟩
    have summed : sum.Flattens :=
      (Value.forall_within_scalar_iff rfl rfl).mpr ⟨fun x same => Value.number.inj same ▸ rfl, nofun⟩
    have fees : Value.Flattens (.array [price]) :=
      Value.forall_within_array_iff.mpr ⟨⟨nofun, nofun⟩, List.forall_mem_singleton.mpr priced⟩
    have order : Value.Flattens (.map [("fees", .array [price]), ("sum", sum)]) :=
      Value.flattens_map_iff.mpr (List.forall_mem_cons.mpr ⟨fees, List.forall_mem_singleton.mpr summed⟩)
    refine ⟨List.forall_mem_singleton.mpr order, ?_⟩
    rintro _ ⟨⟩
    exact List.forall_mem_singleton.mpr dated
  obtain ⟨flat, read, kept⟩ := changes change well flattens
  have isLate : late.Gives change true := Expr.gives_compare_iff.mpr (by decide +kernel)
  have isCovered : covered.Gives change true := Expr.gives_compare_iff.mpr (by decide +kernel)
  exact ⟨by decide +kernel, (scalars (.date due) year).1, well, flattens, flat, read,
    (kept .greater trivial _ _).1 true isLate, (kept .greaterOrEqual trivial _ _).1 true isCovered⟩

end RecordRules
