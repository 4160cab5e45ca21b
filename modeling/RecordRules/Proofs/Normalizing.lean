/-
# What normalizing leaves as it is

Before a comparison, and in `changed`, every decimal in a value is replaced by its number.
What is left has no decimal at any depth, and a value without decimals is left alone, so
normalizing twice is normalizing once (`normalize_eq_self_iff`, `normalize_normalize`).

Equality, truth and order have rules of their own for decimals. They look at the number and at
nothing else, so they do not see what normalizing does: a value keeps its form
(`form_normalize`) and with it everything that it equals, its truth, and its place in the
order. Then each comparison has one answer before and after (`Comparison.answer?_normalize`).
The exception is `contains` with a text on the left, which searches for the text that the
right side is shown as: a decimal shows its digits as they were given, `1.50`, and a number
the shortest that there are.

Messages are another matter, since they name the kind of value that did not fit. So results
are compared where there is an answer: `Comparison.answer?` is `none` where a comparison fails.

Key definitions: `Value.DecimalFree`, `Comparison.answer?`. Key theorems: `normalize_eq_self_iff`,
`form_normalize`, `Comparison.answer?_normalize`, `normalized_decides_alike`.
-/
import RecordRules.Evaluate
import RecordRules.Proofs.Equality
import RecordRules.Proofs.Reading

namespace RecordRules

namespace Value

/-! ### No decimal is left -/

/-- No decimal stands in the value, at any depth. -/
def DecimalFree (v : Value) : Prop := ∀ part : Value, part.Within v → ∀ d, part ≠ .decimal d

mutual

theorem decimalFree_normalize : ∀ v : Value, v.normalize.DecimalFree
  | .null | .bool _ | .number _ | .decimal _ | .string _ | .date _ => (forall_within_scalar_iff rfl rfl).mpr nofun
  | .array items => forall_within_array_iff.mpr ⟨nofun, decimalFree_normalizeItems items⟩
  | .map entries => forall_within_map_iff.mpr ⟨nofun, decimalFree_normalizeEntries entries⟩

theorem decimalFree_normalizeItems : ∀ items : List Value, ∀ item ∈ normalizeItems items, item.DecimalFree
  | [] => nofun
  | item :: rest => List.forall_mem_cons.mpr ⟨decimalFree_normalize item, decimalFree_normalizeItems rest⟩

theorem decimalFree_normalizeEntries : ∀ entries : List (String × Value),
    ∀ entry ∈ normalizeEntries entries, entry.2.DecimalFree
  | [] => nofun
  | (_, value) :: rest =>
    List.forall_mem_cons.mpr ⟨decimalFree_normalize value, decimalFree_normalizeEntries rest⟩

end

mutual

theorem normalize_of_decimalFree : ∀ v : Value, v.DecimalFree → v.normalize = v
  | .null, _ | .bool _, _ | .number _, _ | .string _, _ | .date _, _ => rfl
  | .decimal d, free => absurd rfl (free (.decimal d) .self d)
  | .array items, free => by
    rw [normalize, normalizeItems_of_decimalFree items (forall_within_array_iff.mp free).2]
  | .map entries, free => by
    rw [normalize, normalizeEntries_of_decimalFree entries (forall_within_map_iff.mp free).2]

theorem normalizeItems_of_decimalFree : ∀ items : List Value, (∀ item ∈ items, item.DecimalFree) →
    normalizeItems items = items
  | [], _ => rfl
  | item :: rest, free => by
    obtain ⟨first, more⟩ := List.forall_mem_cons.mp free
    rw [normalizeItems, normalize_of_decimalFree item first, normalizeItems_of_decimalFree rest more]

theorem normalizeEntries_of_decimalFree : ∀ entries : List (String × Value),
    (∀ entry ∈ entries, entry.2.DecimalFree) → normalizeEntries entries = entries
  | [], _ => rfl
  | (name, value) :: rest, free => by
    obtain ⟨first, more⟩ := List.forall_mem_cons.mp free
    rw [normalizeEntries, normalize_of_decimalFree value first, normalizeEntries_of_decimalFree rest more]

end

/-- **What normalizing leaves alone.** These are the values without decimals. -/
theorem normalize_eq_self_iff {v : Value} : v.normalize = v ↔ v.DecimalFree :=
  ⟨fun same => same ▸ decimalFree_normalize v, normalize_of_decimalFree v⟩

theorem normalize_normalize (v : Value) : v.normalize.normalize = v.normalize :=
  normalize_eq_self_iff.mpr (decimalFree_normalize v)

/-! ### Equality, truth and order -/

mutual

/-- **One form.** A decimal has the form of its number. -/
theorem form_normalize : ∀ v : Value, v.normalize.form = v.form
  | .null | .bool _ | .number _ | .decimal _ | .string _ | .date _ => rfl
  | .array items => by rw [normalize, form, form, formItems_normalize items]
  | .map entries => by rw [normalize, form, form, formEntries_normalize entries]

theorem formItems_normalize : ∀ items : List Value, formItems (normalizeItems items) = formItems items
  | [] => rfl
  | item :: rest => by
    rw [normalizeItems, formItems, formItems, form_normalize item, formItems_normalize rest]

theorem formEntries_normalize : ∀ entries : List (String × Value),
    formEntries (normalizeEntries entries) = formEntries entries
  | [] => rfl
  | (name, value) :: rest => by
    rw [normalizeEntries, formEntries, formEntries, form_normalize value, formEntries_normalize rest]

end

/-- Values of one form each equal the same. -/
theorem deepEqual_of_form {a a' b b' : Value} (left : a.form = a'.form) (right : b.form = b'.form) :
    a.deepEqual b = a'.deepEqual b' := by
  rw [Bool.eq_iff_iff, deepEqual_iff_form, deepEqual_iff_form, left, right]

theorem deepEqual_normalize (a b : Value) : a.normalize.deepEqual b.normalize = a.deepEqual b :=
  deepEqual_of_form (form_normalize a) (form_normalize b)

theorem isTruthy_normalize (v : Value) : v.normalize.isTruthy = v.isTruthy := by
  cases v <;> rfl

theorem comparable?_normalize (v : Value) : v.normalize.comparable? = v.comparable? := by
  cases v <;> rfl

/-! ### Membership -/

theorem normalizeItems_eq_map (items : List Value) : normalizeItems items = items.map normalize := by
  induction items with
  | nil => rfl
  | cons item rest ih => rw [normalizeItems, ih, List.map_cons]

/-- A test that does not see normalizing holds of one of the items before and after alike. -/
theorem any_normalizeItems {p q : Value → Bool} (same : ∀ item : Value, p item.normalize = q item)
    (items : List Value) : (normalizeItems items).any p = items.any q := by
  rw [normalizeItems_eq_map, List.any_map]
  exact congrArg items.any (funext same)

theorem memberOf?_normalize (a b : Value) : a.normalize.memberOf? b.normalize = a.memberOf? b := by
  cases b with
  | array items => exact congrArg some (any_normalizeItems (fun item => deepEqual_normalize a item) items)
  | _ => rfl

theorem contains?_normalize {a : Value} (noText : a.string? = none) (b : Value) :
    a.normalize.contains? b.normalize = a.contains? b := by
  cases a with
  | string => cases noText
  | array items => exact congrArg some (any_normalizeItems (fun item => deepEqual_normalize item b) items)
  | _ => rfl

/-! ### Where there is an answer -/

theorem toOption_comparable (v : Value) : v.comparable.toOption = v.comparable? := by
  unfold comparable
  cases v.comparable? <;> rfl

theorem toOption_memberOf (a b : Value) : (a.memberOf b).toOption = a.memberOf? b := by
  unfold memberOf
  cases a.memberOf? b <;> rfl

theorem toOption_contains (a b : Value) : (a.contains b).toOption = a.contains? b := by
  unfold contains
  cases a.contains? b <;> rfl

theorem toOption_ordered (rel : Binary64 → Binary64 → Bool) (a b : Value) :
    (a.ordered rel b).toOption = Option.map₂ rel a.comparable? b.comparable? := by
  rw [← toOption_comparable, ← toOption_comparable, ordered]
  cases a.comparable <;> cases b.comparable <;> rfl

end Value

namespace Comparison

open Value

/-- The answer of a comparison about two values, if it has one. -/
def answer? : Comparison → Value → Value → Option Bool
  | equal, left, right => some (left.deepEqual right)
  | notEqual, left, right => some (!left.deepEqual right)
  | greater, left, right => Option.map₂ (fun x y => y.lt x) left.comparable? right.comparable?
  | greaterOrEqual, left, right => Option.map₂ (fun x y => y.le x) left.comparable? right.comparable?
  | less, left, right => Option.map₂ Binary64.lt left.comparable? right.comparable?
  | lessOrEqual, left, right => Option.map₂ Binary64.le left.comparable? right.comparable?
  | memberOf, left, right => left.memberOf? right
  | contains, left, right => left.contains? right

theorem toOption_apply (op : Comparison) (left right : Value) :
    (op.apply left right).toOption = op.answer? left right := by
  cases op with
  | equal | notEqual => rfl
  | greater | greaterOrEqual | less | lessOrEqual => exact toOption_ordered _ left right
  | memberOf => exact toOption_memberOf left right
  | contains => exact toOption_contains left right

theorem apply_eq_ok_iff {op : Comparison} {left right : Value} {answer : Bool} :
    op.apply left right = .ok answer ↔ op.answer? left right = some answer := by
  rw [← toOption_apply, toOption_eq_some_iff]

/-- **One answer.** A comparison that does not search a text does not see normalizing. -/
theorem answer?_normalize {op : Comparison} {left : Value} (noText : op = .contains → left.string? = none)
    (right : Value) : op.answer? left.normalize right.normalize = op.answer? left right := by
  cases op with
  | equal | notEqual => simp only [answer?, deepEqual_normalize]
  | greater | greaterOrEqual | less | lessOrEqual => simp only [answer?, comparable?_normalize]
  | memberOf => exact memberOf?_normalize left right
  | contains => exact contains?_normalize (noText rfl) right

theorem apply_normalize (op : Comparison) {left : Value} (noText : op = .contains → left.string? = none)
    (right : Value) (answer : Bool) :
    op.apply left.normalize right.normalize = .ok answer ↔ op.apply left right = .ok answer := by
  rw [apply_eq_ok_iff, apply_eq_ok_iff, answer?_normalize noText]

end Comparison

namespace Value

/-- **Normalizing decides nothing.** It leaves no decimal at any depth, and a second time it does nothing. The
values have the same truth, the same number in the order if they have one, and are equal if they were. One is a
member of the other, and an array contains a value, exactly if it was so before, and there is no answer if there
was none. So it is with every comparison that does not search a text. -/
theorem normalized_decides_alike (a b : Value) :
    a.normalize.normalize = a.normalize ∧ a.normalize.DecimalFree ∧
      a.normalize.deepEqual b.normalize = a.deepEqual b ∧
      a.normalize.isTruthy = a.isTruthy ∧
      (∀ x, a.normalize.comparable = .ok x ↔ a.comparable = .ok x) ∧
      (∀ answer, a.normalize.memberOf b.normalize = .ok answer ↔ a.memberOf b = .ok answer) ∧
      (∀ items answer, (array items).normalize.contains b.normalize = .ok answer ↔
        (array items).contains b = .ok answer) ∧
      ∀ op : Comparison, (op = .contains → a.string? = none) → ∀ answer,
        op.apply a.normalize b.normalize = .ok answer ↔ op.apply a b = .ok answer := by
  refine ⟨normalize_normalize a, decimalFree_normalize a, deepEqual_normalize a b, isTruthy_normalize a, ?_, ?_, ?_, ?_⟩
  · intro x
    rw [← toOption_eq_some_iff, ← toOption_eq_some_iff, toOption_comparable, toOption_comparable,
      comparable?_normalize]
  · exact Comparison.apply_normalize .memberOf nofun b
  · intro items
    have noText : Comparison.contains = .contains → (array items).string? = none := fun _ => rfl
    exact Comparison.apply_normalize .contains noText b
  · intro op noText
    exact Comparison.apply_normalize op noText b

/-- Decimals in an array and under a name. A text that is searched does see the digits of a decimal. -/
theorem normalized_decides_alike_nested :
    let fee (value : Value) : Value := .map [("fee", value)]
    let price : Value := .decimal ⟨"1.50", by decide⟩
    let a : Value := .array [.decimal ⟨"0.00", by decide⟩, fee price]
    let b : Value := fee (.number (.ofBits 0x3FF8000000000000))
    Comparison.contains.apply a b = .ok true ∧ Comparison.contains.apply a.normalize b.normalize = .ok true ∧
      Comparison.contains.apply (.string "1.5") price = .ok false ∧
      Comparison.contains.apply (.string "1.5") price.normalize = .ok true := by
  intro fee price a b
  have found : Comparison.contains.apply a b = .ok true := by decide +kernel
  have noText : Comparison.contains = .contains → a.string? = none := fun _ => rfl
  obtain ⟨_, _, _, _, _, _, _, decides⟩ := normalized_decides_alike a b
  refine ⟨found, (decides .contains noText true).mpr found, ?_, ?_⟩
  · cbv
  · decide +kernel

end Value
end RecordRules
