/-
# The names in an expression

The names of a formula are gathered while it is read, and they are those of its
tree. `Expr.gather` gathers them from the tree, in the order in which a reader meets
them, and `mem_gather_fields` and `mem_gather_functions` say what it finds: the field
paths that the expression mentions and the functions that it calls, besides those
gathered before.

Key definitions: `Expr.gather`, `Expr.Part`, `Expr.Everywhere`. Key theorems: `Expr.mem_gather_fields`,
`Expr.mem_gather_functions`.
-/
import RecordRules.Formula

namespace RecordRules

namespace Names

theorem mem_fields_withField {names : Names} {path other : String} :
    other ∈ (names.withField path).fields ↔ other ∈ names.fields ∨ other = path := by
  rw [withField, NameSet.mem_insert, or_comm]

theorem mem_fields_withCall {names : Names} {function : String} {args : List Expr} {path : String} :
    path ∈ (names.withCall function args).fields ↔
      path ∈ names.fields ∨ Expr.literalPath? function args = some path := by
  unfold withCall
  cases h : Expr.literalPath? function args with
  | none => simp
  | some named => simp only [mem_fields_withField, Option.some.injEq, eq_comm]

theorem mem_functions_withCall {names : Names} {function other : String} {args : List Expr} :
    other ∈ (names.withCall function args).functions ↔ other ∈ names.functions ∨ other = function := by
  unfold withCall
  cases Expr.literalPath? function args <;> simp only [withField, NameSet.mem_insert, or_comm]

end Names

namespace Expr

/-! ### Gathering -/

mutual

/-- The names gathered before, and those in the expression. -/
def gather (names : Names) : Expr → Names
  | .literal _ => names
  | .field path => names.withField path
  | .connect _ left right => right.gather (left.gather names)
  | .compare _ left right => right.gather (left.gather names)
  | .call function args => (gatherList names args).withCall function args
  | .array items => gatherList names items

def gatherList (names : Names) : List Expr → Names
  | [] => names
  | e :: rest => gatherList (e.gather names) rest

end

/-! ### Mentions and calls, by the kind of expression -/

variable {path function : String}

theorem not_mentions_literal {value : Literal} : ¬ (literal value).Mentions path := nofun

theorem mentions_field_iff {other : String} : (field other).Mentions path ↔ path = other :=
  ⟨fun h => by cases h; rfl, fun h => h ▸ .field⟩

theorem mentions_connect_iff {op : Connective} {left right : Expr} :
    (connect op left right).Mentions path ↔ left.Mentions path ∨ right.Mentions path := by
  refine ⟨fun h => ?_, fun h => h.elim .connectLeft .connectRight⟩
  cases h with
  | connectLeft h => exact .inl h
  | connectRight h => exact .inr h

theorem mentions_compare_iff {op : Comparison} {left right : Expr} :
    (compare op left right).Mentions path ↔ left.Mentions path ∨ right.Mentions path := by
  refine ⟨fun h => ?_, fun h => h.elim .compareLeft .compareRight⟩
  cases h with
  | compareLeft h => exact .inl h
  | compareRight h => exact .inr h

theorem mentions_call_iff {args : List Expr} : (call function args).Mentions path ↔
    (∃ arg ∈ args, arg.Mentions path) ∨ literalPath? function args = some path := by
  refine ⟨fun h => ?_, fun h => h.elim (fun ⟨_, mem, h⟩ => .inCall mem h) .argument⟩
  cases h with
  | argument h => exact .inr h
  | inCall mem h => exact .inl ⟨_, mem, h⟩

theorem mentions_array_iff {items : List Expr} :
    (array items).Mentions path ↔ ∃ item ∈ items, item.Mentions path := by
  refine ⟨fun h => ?_, fun ⟨_, mem, h⟩ => .inArray mem h⟩
  cases h with
  | inArray mem h => exact ⟨_, mem, h⟩

theorem not_calls_literal {value : Literal} : ¬ (literal value).Calls function := nofun

theorem not_calls_field : ¬ (field path).Calls function := nofun

theorem calls_connect_iff {op : Connective} {left right : Expr} :
    (connect op left right).Calls function ↔ left.Calls function ∨ right.Calls function := by
  refine ⟨fun h => ?_, fun h => h.elim .connectLeft .connectRight⟩
  cases h with
  | connectLeft h => exact .inl h
  | connectRight h => exact .inr h

theorem calls_compare_iff {op : Comparison} {left right : Expr} :
    (compare op left right).Calls function ↔ left.Calls function ∨ right.Calls function := by
  refine ⟨fun h => ?_, fun h => h.elim .compareLeft .compareRight⟩
  cases h with
  | compareLeft h => exact .inl h
  | compareRight h => exact .inr h

theorem calls_call_iff {other : String} {args : List Expr} : (call other args).Calls function ↔
    (∃ arg ∈ args, arg.Calls function) ∨ function = other := by
  refine ⟨fun h => ?_, fun h => h.elim (fun ⟨_, mem, h⟩ => .inCall mem h) fun h => h ▸ .call⟩
  cases h with
  | call => exact .inr rfl
  | inCall mem h => exact .inl ⟨_, mem, h⟩

theorem calls_array_iff {items : List Expr} :
    (array items).Calls function ↔ ∃ item ∈ items, item.Calls function := by
  refine ⟨fun h => ?_, fun ⟨_, mem, h⟩ => .inArray mem h⟩
  cases h with
  | inArray mem h => exact ⟨_, mem, h⟩

/-! ### What is gathered -/

mutual

/-- **Gathered fields.** They are the field paths that the expression mentions. -/
theorem mem_gather_fields (names : Names) :
    ∀ e : Expr, path ∈ (e.gather names).fields ↔ path ∈ names.fields ∨ e.Mentions path
  | .literal _ => by simp only [gather, not_mentions_literal, or_false]
  | .field _ => by rw [gather, Names.mem_fields_withField, mentions_field_iff]
  | .connect _ left right => by
    rw [gather, mem_gather_fields _ right, mem_gather_fields _ left, mentions_connect_iff, or_assoc]
  | .compare _ left right => by
    rw [gather, mem_gather_fields _ right, mem_gather_fields _ left, mentions_compare_iff, or_assoc]
  | .call _ args => by
    rw [gather, Names.mem_fields_withCall, mem_gatherList_fields _ args, mentions_call_iff, or_assoc]
  | .array items => by rw [gather, mem_gatherList_fields _ items, mentions_array_iff]

theorem mem_gatherList_fields (names : Names) : ∀ es : List Expr,
    path ∈ (gatherList names es).fields ↔ path ∈ names.fields ∨ ∃ e ∈ es, e.Mentions path
  | [] => by simp [gatherList]
  | e :: rest => by
    rw [gatherList, mem_gatherList_fields _ rest, mem_gather_fields _ e, or_assoc]
    simp only [List.mem_cons, exists_eq_or_imp]

end

mutual

/-- **Gathered functions.** They are the functions that the expression calls. -/
theorem mem_gather_functions (names : Names) : ∀ e : Expr,
    function ∈ (e.gather names).functions ↔ function ∈ names.functions ∨ e.Calls function
  | .literal _ => by simp only [gather, not_calls_literal, or_false]
  | .field _ => by simp only [gather, Names.withField, not_calls_field, or_false]
  | .connect _ left right => by
    rw [gather, mem_gather_functions _ right, mem_gather_functions _ left, calls_connect_iff, or_assoc]
  | .compare _ left right => by
    rw [gather, mem_gather_functions _ right, mem_gather_functions _ left, calls_compare_iff, or_assoc]
  | .call _ args => by
    rw [gather, Names.mem_functions_withCall, mem_gatherList_functions _ args, calls_call_iff, or_assoc]
  | .array items => by rw [gather, mem_gatherList_functions _ items, calls_array_iff]

theorem mem_gatherList_functions (names : Names) : ∀ es : List Expr,
    function ∈ (gatherList names es).functions ↔ function ∈ names.functions ∨ ∃ e ∈ es, e.Calls function
  | [] => by simp [gatherList]
  | e :: rest => by
    rw [gatherList, mem_gatherList_functions _ rest, mem_gather_functions _ e, or_assoc]
    simp only [List.mem_cons, exists_eq_or_imp]

end

/-- Gathered from the tree alone, the fields are those that the expression mentions. -/
theorem mem_fields_gathered (e : Expr) : path ∈ (e.gather .none).fields ↔ e.Mentions path := by
  rw [mem_gather_fields]
  simp only [Names.none, NameSet.not_mem_empty, false_or]

/-- Gathered from the tree alone, the functions are those that the expression calls. -/
theorem mem_functions_gathered (e : Expr) : function ∈ (e.gather .none).functions ↔ e.Calls function := by
  rw [mem_gather_functions]
  simp only [Names.none, NameSet.not_mem_empty, false_or]

/-! ### Parts -/

/-- The expressions right below. -/
def children : Expr → List Expr
  | .literal _ | .field _ => []
  | .connect _ left right | .compare _ left right => [left, right]
  | .call _ args => args
  | .array items => items

/-- The expression stands somewhere in the other, or is it. -/
inductive Part (part : Expr) : Expr → Prop where
  | self : Part part part
  | under {e child} : child ∈ e.children → Part part child → Part part e

/-- The condition holds of the expression and of all that stands in it. -/
def Everywhere (P : Expr → Prop) (e : Expr) : Prop := ∀ part, part.Part e → P part

section
variable {P : Expr → Prop} {e left right : Expr} {es : List Expr}

theorem everywhere_iff : e.Everywhere P ↔ P e ∧ ∀ child ∈ e.children, child.Everywhere P := by
  constructor
  · exact fun h => ⟨h e .self, fun child mem part hp => h part (.under mem hp)⟩
  · rintro ⟨here, below⟩ part (_ | ⟨mem, hp⟩)
    · exact here
    · exact below _ mem part hp

@[simp]
theorem everywhere_literal {value : Literal} : (literal value).Everywhere P ↔ P (.literal value) := by
  rw [everywhere_iff]
  simp only [children, List.not_mem_nil, false_implies, implies_true, and_true]

@[simp]
theorem everywhere_field : (field path).Everywhere P ↔ P (.field path) := by
  rw [everywhere_iff]
  simp only [children, List.not_mem_nil, false_implies, implies_true, and_true]

@[simp]
theorem everywhere_connect {op : Connective} : (connect op left right).Everywhere P ↔
    P (.connect op left right) ∧ left.Everywhere P ∧ right.Everywhere P := by
  rw [everywhere_iff]
  simp only [children, List.forall_mem_cons, List.not_mem_nil, false_implies, implies_true, and_true]

@[simp]
theorem everywhere_compare {op : Comparison} : (compare op left right).Everywhere P ↔
    P (.compare op left right) ∧ left.Everywhere P ∧ right.Everywhere P := by
  rw [everywhere_iff]
  simp only [children, List.forall_mem_cons, List.not_mem_nil, false_implies, implies_true, and_true]

@[simp]
theorem everywhere_call :
    (call function es).Everywhere P ↔ P (.call function es) ∧ ∀ e ∈ es, e.Everywhere P :=
  everywhere_iff

@[simp]
theorem everywhere_array : (array es).Everywhere P ↔ P (.array es) ∧ ∀ e ∈ es, e.Everywhere P :=
  everywhere_iff

end

end Expr
end RecordRules
