/-
# Entries by name

Objects and records are lists of named entries in ascending order of name.
Names are ordered by code point, which is also the order of their UTF-8 bytes.
Two lists of entries are equal exactly when they hold the same entries, as the
order leaves no choice.

Key definitions: `Ascending`, `insert`, `ofList`. Key theorem:
`ascending_insert`.
-/

namespace RecordRules.Keyed

variable {α : Type}

/-- Every name comes before the ones behind it. -/
def Ascending (entries : List (String × α)) : Prop :=
  (entries.map Prod.fst).Pairwise (· < ·)

/-- Puts an entry in its place; an entry of that name gives way to it. -/
def insert (name : String) (value : α) : List (String × α) → List (String × α)
  | [] => [(name, value)]
  | entry :: rest =>
    if name < entry.1 then (name, value) :: entry :: rest
    else if entry.1 < name then entry :: insert name value rest
    else (name, value) :: rest

/-- The entries in ascending order; of entries with one name the last stays. -/
def ofList (entries : List (String × α)) : List (String × α) :=
  entries.foldl (fun sorted entry => insert entry.1 entry.2 sorted) []

theorem mem_names_insert {name other : String} {value : α} {entries : List (String × α)}
    (h : other ∈ (insert name value entries).map Prod.fst) :
    other = name ∨ other ∈ entries.map Prod.fst := by
  induction entries with
  | nil => simpa [insert] using h
  | cons entry rest ih =>
    simp only [insert] at h
    split at h
    · simpa using h
    split at h
    · rcases List.mem_cons.1 h with h | h
      · exact .inr (by simp [h])
      · rcases ih h with h | h
        · exact .inl h
        · exact .inr (List.mem_cons_of_mem _ h)
    · rcases List.mem_cons.1 h with h | h
      · exact .inl h
      · exact .inr (List.mem_cons_of_mem _ h)

theorem not_lt_antisymm {a b : String} (h : ¬ a < b) (h' : ¬ b < a) : a = b :=
  String.le_antisymm h' h

/-- **Order.** Inserting keeps the names ascending. -/
theorem ascending_insert {name : String} {value : α} {entries : List (String × α)}
    (h : Ascending entries) : Ascending (insert name value entries) := by
  induction entries with
  | nil => simp [insert, Ascending]
  | cons entry rest ih =>
    have first := (List.pairwise_cons.1 h).1
    have sorted : Ascending rest := (List.pairwise_cons.1 h).2
    unfold insert
    split
    · rename_i before
      refine List.pairwise_cons.2 ⟨fun other mem => ?_, h⟩
      rcases List.mem_cons.1 mem with rfl | mem
      · exact before
      · exact String.lt_trans before (first other mem)
    split
    · rename_i after
      refine List.pairwise_cons.2 ⟨fun other mem => ?_, ih sorted⟩
      rcases mem_names_insert mem with rfl | mem
      · exact after
      · exact first other mem
    · rename_i notBefore notAfter
      have same : name = entry.1 := not_lt_antisymm notBefore notAfter
      exact List.pairwise_cons.2 ⟨fun other mem => same ▸ first other mem, sorted⟩

theorem ascending_ofList (entries : List (String × α)) : Ascending (ofList entries) := by
  suffices ∀ sorted : List (String × α), Ascending sorted →
      Ascending (entries.foldl (fun sorted entry => insert entry.1 entry.2 sorted) sorted) from
    this [] List.Pairwise.nil
  intro sorted h
  induction entries generalizing sorted with
  | nil => exact h
  | cons entry rest ih => exact ih _ (ascending_insert h)

end RecordRules.Keyed
