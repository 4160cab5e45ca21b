/-
# Sets of names

A finite set of texts as the ascending list of its members, so that equal sets
are equal lists and `toList` is the order in which members are visited.

Key definitions: `NameSet`, `insert`, `ofList`. Key theorem: `mem_insert`.
-/

namespace RecordRules

/-- A finite set of names, kept in ascending order of code points. -/
structure NameSet where
  toList : List String
  ascending : toList.Pairwise (· < ·)
deriving DecidableEq

namespace NameSet

instance : Membership String NameSet := ⟨fun names name => name ∈ names.toList⟩

instance (name : String) (names : NameSet) : Decidable (name ∈ names) :=
  inferInstanceAs (Decidable (name ∈ names.toList))

/-- The set without members. -/
def empty : NameSet := ⟨[], .nil⟩

/-- The list with one more name in its place, unless it is there. -/
def place (name : String) : List String → List String
  | [] => [name]
  | first :: rest =>
    if name < first then name :: first :: rest
    else if first < name then first :: place name rest
    else first :: rest

theorem mem_place {name other : String} {names : List String} :
    other ∈ place name names ↔ other = name ∨ other ∈ names := by
  induction names with
  | nil => simp [place]
  | cons first rest ih =>
    unfold place
    split
    · simp
    split
    · simp only [List.mem_cons, ih]
      exact or_left_comm
    · rename_i notBefore notAfter
      have same : name = first := String.le_antisymm notAfter notBefore
      simp [same]

theorem pairwise_place {name : String} {names : List String} (h : names.Pairwise (· < ·)) :
    (place name names).Pairwise (· < ·) := by
  induction names with
  | nil => simp [place]
  | cons first rest ih =>
    have least := (List.pairwise_cons.1 h).1
    unfold place
    split
    · rename_i before
      refine List.pairwise_cons.2 ⟨fun other mem => ?_, h⟩
      rcases List.mem_cons.1 mem with rfl | mem
      · exact before
      · exact String.lt_trans before (least other mem)
    split
    · rename_i after
      refine List.pairwise_cons.2 ⟨fun other mem => ?_, ih (List.pairwise_cons.1 h).2⟩
      rcases mem_place.1 mem with rfl | mem
      · exact after
      · exact least other mem
    · exact h

/-- The set with one more member. -/
def insert (name : String) (names : NameSet) : NameSet :=
  ⟨place name names.toList, pairwise_place names.ascending⟩

/-- The set of the names in a list. -/
def ofList (names : List String) : NameSet := names.foldl (fun set name => set.insert name) empty

/-- **Membership.** Inserting adds that name and no other. -/
theorem mem_insert {name other : String} {names : NameSet} :
    other ∈ names.insert name ↔ other = name ∨ other ∈ names := mem_place

theorem not_mem_empty {name : String} : name ∉ empty := List.not_mem_nil

theorem mem_ofList {name : String} {names : List String} : name ∈ ofList names ↔ name ∈ names := by
  suffices ∀ set : NameSet,
      name ∈ names.foldl (fun set name => set.insert name) set ↔ name ∈ set ∨ name ∈ names by
    rw [ofList, this]
    simp [not_mem_empty]
  induction names with
  | nil => simp
  | cons first rest ih =>
    intro set
    rw [List.foldl_cons, ih, mem_insert, List.mem_cons]
    rw [or_comm (a := name = first), or_assoc]

end NameSet
end RecordRules
