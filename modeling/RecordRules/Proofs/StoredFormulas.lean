/-
# Guards and stored formulas

A guard is asked about the names of a formula and not about its tree. While a text is read
the two are kept in step, so an answer that refuses no field means that the guard permits
every field that the expression mentions (`Formula.guards_of_parse`). A formula that comes
from JSON brings a tree and a list of fields, and nothing compares them: it is guarded at
exactly the fields that are listed (`Formula.guards_iff`, `Formula.mem_fields_of_ofJson?`),
and a field that its tree mentions and its list leaves out is read under every guard.

Key definitions: `Formula.Guards`, `Formula.Lists`. Key theorems: `Formula.guards_iff`,
`guards_stored_iff`, `unlisted_read`.
-/
import RecordRules.Formula.Json
import RecordRules.Json.Text
import RecordRules.Proofs.Guarding

namespace RecordRules

/-! ### What a guard has permitted -/

/-- The answer is that the guard refuses a field. -/
def Verdict.Refused (verdict : Verdict) : Prop :=
  ∃ path reason, verdict.answer = .error (.fieldRejected path reason)

/-- A guard that refuses no field has been asked about the path and permits it, whatever the change. -/
def Formula.Guards (formula : Formula) (path : String) : Prop :=
  ∀ (guard : Guard) (change : Change), ¬ (formula.evaluate change (some guard)).Refused →
    path ∈ (formula.evaluate change (some guard)).asked ∧ guard path = none

namespace Guard

variable {guard : Guard} {paths : List String}

theorem refused_eq_none (h : ∀ path ∈ paths, guard path = none) : (guard.askAll paths).refused = none := by
  rw [askAll_of_permitted h]

/-- A guard that refuses nothing is asked about everything. -/
theorem asked_of_refused_eq_none (h : (guard.askAll paths).refused = none) :
    (guard.askAll paths).asked = paths := by
  rw [askAll_of_permitted (askAll_eq_none h)]

/-- The guard that refuses one path. -/
def refusing (path : String) : Guard := fun other =>
  if other = path then some (.host s!"{path} is denied") else none

theorem refusing_eq_none_iff {path other : String} : refusing path other = none ↔ other ≠ path := by
  simp [refusing]

end Guard

namespace Formula

variable {formula : Formula} {guard : Guard} {change : Change} {path : String}

theorem not_refused_holds {asked : List String} : ¬ (Verdict.mk (formula.holds change) asked).Refused := by
  rintro ⟨path, reason, h⟩
  simp only [holds] at h
  split at h <;> cases h

/-- An answer refuses a field exactly if the guard does. -/
theorem refused_evaluate_iff : (formula.evaluate change (some guard)).Refused ↔
    (guard.check formula.names.fields).refused ≠ none := by
  simp only [evaluate]
  cases h : (guard.check formula.names.fields).refused with
  | none =>
    refine iff_of_false not_refused_holds ?_
    simp
  | some refusal =>
    refine iff_of_true ⟨refusal.1, refusal.2, rfl⟩ ?_
    simp

/-- **Guarded fields.** A formula is guarded at the fields among its names and no others: a guard that
refuses another field is not asked about it. -/
theorem guards_iff : formula.Guards path ↔ path ∈ formula.names.fields := by
  constructor
  · intro guards
    by_contra missing
    have permitted : ∀ other ∈ formula.names.fields.toList, Guard.refusing path other = none := by
      intro other mem
      refine Guard.refusing_eq_none_iff.mpr ?_
      rintro rfl
      exact missing mem
    have unrefused : ¬ (formula.evaluate ⟨none, []⟩ (some (Guard.refusing path))).Refused := by
      rw [refused_evaluate_iff, not_not]
      exact Guard.refused_eq_none permitted
    have cleared := (guards _ _ unrefused).2
    exact Guard.refusing_eq_none_iff.mp cleared rfl
  · intro mem guard change unrefused
    have none : (guard.check formula.names.fields).refused = none := by
      rwa [refused_evaluate_iff, not_not] at unrefused
    have asked : (formula.evaluate change (some guard)).asked = formula.names.fields.toList := by
      simp only [evaluate, none]
      exact Guard.asked_of_refused_eq_none none
    refine ⟨?_, Guard.askAll_eq_none none path mem⟩
    rw [asked]
    exact mem

/-- A formula that was read from a text is guarded at every field that its expression mentions. -/
theorem guards_of_parse {source : String} (parsed : Formula.parse source = .ok formula)
    (mentioned : formula.expr.Mentions path) : formula.Guards path :=
  guards_iff.mpr ((mem_fields_of_parse parsed).mpr mentioned)

/-! ### Stored formulas -/

/-- The stored formula has the path in its list of fields. -/
def Lists (j : Json) (path : String) : Prop :=
  ∃ ast fields functions listed, j.fields? memberNames false = some [some ast, some fields, some functions] ∧
    fields.strings? = some listed ∧ path ∈ listed

/-- The fields of a formula that comes from JSON are those that are listed there. -/
theorem mem_fields_of_ofJson? {j : Json} (read : ofJson? j = some formula) :
    path ∈ formula.names.fields ↔ Lists j path := by
  unfold ofJson? at read
  obtain ⟨members, hm, read⟩ := Option.bind_eq_some_iff.mp read
  split at read
  · rename_i ast fields functions
    obtain ⟨expr, -, read⟩ := Option.bind_eq_some_iff.mp read
    obtain ⟨listed, hl, read⟩ := Option.bind_eq_some_iff.mp read
    obtain ⟨called, -, read⟩ := Option.bind_eq_some_iff.mp read
    cases read
    constructor
    · intro mem
      exact ⟨ast, fields, functions, listed, hm, hl, NameSet.mem_ofList.mp mem⟩
    · rintro ⟨ast', fields', functions', listed', hm', hl', mem⟩
      cases hm.symm.trans hm'
      cases hl.symm.trans hl'
      exact NameSet.mem_ofList.mpr mem
  · cases read

end Formula

/-- **Stored formulas.** A formula that comes from JSON is guarded at all the fields that its expression
mentions, exactly if all of them are in its list of fields. -/
theorem guards_stored_iff {j : Json} {formula : Formula} (read : Formula.ofJson? j = some formula) :
    (∀ path, formula.expr.Mentions path → formula.Guards path) ↔
      ∀ path, formula.expr.Mentions path → Formula.Lists j path := by
  constructor
  · intro guarded path mentioned
    exact (Formula.mem_fields_of_ofJson? read).mp (Formula.guards_iff.mp (guarded path mentioned))
  · intro listed path mentioned
    exact Formula.guards_iff.mpr ((Formula.mem_fields_of_ofJson? read).mpr (listed path mentioned))

/-- A list in another order, with a repetition and with more than the expression mentions, guards it. -/
theorem guards_stored_iff_listed :
    let ast : Json := .object [("Call", .object [("name", .string "get"),
      ("args", .array [.object [("Literal", .object [("String", .string "pay")])]])])]
    let j : Json := .array [ast, .array [.string "rate", .string "pay", .string "rate"], .array []]
    ∃ formula, Formula.ofJson? j = some formula ∧ ∀ path, formula.expr.Mentions path → formula.Guards path := by
  intro ast j
  have read : Formula.ofJson? j = some ⟨.call "get" [.literal (.string "pay")],
      .ofList ["rate", "pay", "rate"], .ofList []⟩ := rfl
  refine ⟨_, read, (guards_stored_iff read).mpr fun path mentioned => ?_⟩
  have named : path = "pay" := by
    rcases Expr.mentions_call_iff.mp mentioned with ⟨arg, mem, inside⟩ | written
    · cases List.mem_singleton.mp mem
      exact absurd inside Expr.not_mentions_literal
    · exact (Option.some.inj written).symm
  subst named
  exact ⟨ast, _, .array [], ["rate", "pay", "rate"], rfl, rfl, by simp⟩

/-- The list is empty. The guard refuses the one field that the expression mentions, and the answer is what
the field holds. -/
theorem unlisted_read : ∃ formula,
    (Json.read? "\x7b\"ast\":\x7b\"Identifier\":\"pay\"\x7d,\"identifiers\":[],\"functions\":[]\x7d").bind
        Formula.ofJson? = some formula ∧
      formula.expr.Mentions "pay" ∧ Guard.refusing "pay" "pay" ≠ none ∧
      formula.evaluate ⟨none, [("pay", .bool true)]⟩ (some (Guard.refusing "pay")) = ⟨.ok true, []⟩ ∧
      formula.evaluate ⟨none, [("pay", .bool false)]⟩ (some (Guard.refusing "pay")) = ⟨.ok false, []⟩ := by
  refine ⟨⟨.field "pay", .empty, .empty⟩, by cbv, .field, ?_, rfl, rfl⟩
  rw [ne_eq, Guard.refusing_eq_none_iff, not_not]

end RecordRules
