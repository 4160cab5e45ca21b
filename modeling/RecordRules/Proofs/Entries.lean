/-
# Entries in ascending order

The order of entries by name leaves no choice. Under each name there is one entry, so
looking a name up finds the entry of that name (`lookup_of_mem`). Two lists of one length
have the same names as soon as the names of the one are among those of the other
(`names_eq`), and entries that are in order are put in order as they are
(`ofList_of_ascending`).

Key theorems: `lookup_of_mem`, `names_eq`, `ofList_of_ascending`.
-/
import Mathlib
import RecordRules.Keyed

namespace RecordRules.Keyed

variable {α β : Type} {name : String} {value : α} {entries : List (String × α)}

instance (entries : List (String × α)) : Decidable (Ascending entries) :=
  inferInstanceAs (Decidable ((entries.map Prod.fst).Pairwise (· < ·)))

/-! ### Entries that are there -/

theorem mem_insert {entry : String × α} (h : entry ∈ insert name value entries) :
    entry = (name, value) ∨ entry ∈ entries := by
  induction entries with
  | nil => exact .inl (List.mem_singleton.mp h)
  | cons first rest ih =>
    unfold insert at h
    split_ifs at h
    · exact List.mem_cons.mp h
    · rcases List.mem_cons.mp h with rfl | h
      · exact .inr List.mem_cons_self
      · exact (ih h).imp_right (List.mem_cons_of_mem first)
    · exact (List.mem_cons.mp h).imp_right (List.mem_cons_of_mem first)

theorem mem_insert_self (name : String) (value : α) (entries : List (String × α)) :
    (name, value) ∈ insert name value entries := by
  induction entries with
  | nil => exact .head _
  | cons entry rest ih =>
    unfold insert
    split_ifs
    · exact .head _
    · exact .tail _ ih
    · exact .head _

/-- Putting entries in order makes no new ones. -/
theorem mem_of_mem_ofList {entry : String × α} (h : entry ∈ ofList entries) : entry ∈ entries := by
  suffices ∀ sorted : List (String × α),
      entry ∈ entries.foldl (fun sorted entry => insert entry.1 entry.2 sorted) sorted →
        entry ∈ entries ∨ entry ∈ sorted from
    (this [] h).resolve_right List.not_mem_nil
  clear h
  induction entries with
  | nil => exact fun _ => .inr
  | cons first rest ih =>
    intro sorted mem
    rcases ih _ mem with mem | mem
    · exact .inl (List.mem_cons_of_mem _ mem)
    · rcases mem_insert mem with rfl | mem
      · exact .inl List.mem_cons_self
      · exact .inr mem

theorem mem_of_lookup (h : entries.lookup name = some value) : (name, value) ∈ entries := by
  obtain ⟨front, behind, rfl, _⟩ := List.lookup_eq_some_iff.mp h
  simp

theorem Ascending.tail {entry : String × α} (h : Ascending (entry :: entries)) : Ascending entries :=
  (List.pairwise_cons.mp h).2

/-- The first name comes before all others. -/
theorem Ascending.lt_of_mem {entry other : String × α} (h : Ascending (entry :: entries))
    (mem : other ∈ entries) : entry.1 < other.1 :=
  (List.pairwise_cons.mp h).1 other.1 (List.mem_map_of_mem mem)

theorem Ascending.nodup (h : Ascending entries) : (entries.map Prod.fst).Nodup :=
  h.imp fun {_ _} before => String.ne_of_lt before

/-- **One entry to a name.** -/
theorem lookup_of_mem (h : Ascending entries) (mem : (name, value) ∈ entries) :
    entries.lookup name = some value := by
  induction entries with
  | nil => cases mem
  | cons first rest ih =>
    rcases List.mem_cons.mp mem with rfl | mem
    · exact List.lookup_cons_self
    · have before : first.1 < name := h.lt_of_mem mem
      have skip : (name == first.1) = false := beq_eq_false_iff_ne.mpr (String.ne_of_lt before).symm
      rw [List.lookup_cons, skip]
      exact ih h.tail mem

/-! ### The same names -/

/-- As many names, and all of them among the others, are the same names. -/
theorem names_eq {others : List (String × β)} (h : Ascending entries) (h' : Ascending others)
    (length : entries.length = others.length)
    (among : ∀ name ∈ entries.map Prod.fst, name ∈ others.map Prod.fst) :
    entries.map Prod.fst = others.map Prod.fst := by
  have counted : (others.map Prod.fst).length ≤ (entries.map Prod.fst).length := by
    rw [List.length_map, List.length_map, length]
  have perm := (h.nodup.subperm among).perm_of_length_le counted
  refine perm.eq_of_pairwise (fun _ _ _ _ before after => ?_) h h'
  exact absurd (String.lt_trans before after) (String.lt_irrefl _)

/-! ### Putting in order what is in order -/

/-- A name that comes last is put last. -/
theorem insert_of_last (h : ∀ entry ∈ entries, entry.1 < name) :
    insert name value entries = entries ++ [(name, value)] := by
  induction entries with
  | nil => rfl
  | cons first rest ih =>
    obtain ⟨before, rest_before⟩ := List.forall_mem_cons.mp h
    rw [insert, if_neg (String.lt_asymm before), if_pos before, ih rest_before, List.cons_append]

theorem insert_of_ascending {rest : List (String × α)} (h : Ascending (entries ++ (name, value) :: rest)) :
    insert name value entries = entries ++ [(name, value)] := by
  refine insert_of_last fun entry mem => ?_
  have parts : ((entries ++ (name, value) :: rest).map Prod.fst).Pairwise (· < ·) := h
  rw [List.map_append, List.pairwise_append] at parts
  exact parts.2.2 entry.1 (List.mem_map_of_mem mem) name List.mem_cons_self

theorem ofList_of_ascending (h : Ascending entries) : ofList entries = entries := by
  suffices ∀ sorted : List (String × α), Ascending (sorted ++ entries) →
      entries.foldl (fun sorted entry => insert entry.1 entry.2 sorted) sorted = sorted ++ entries from this [] h
  clear h
  induction entries with
  | nil => simp
  | cons entry rest ih =>
    intro sorted ascending
    rw [List.foldl_cons, insert_of_ascending ascending, ih, List.append_assoc, List.singleton_append]
    rwa [List.append_assoc, List.singleton_append]

end RecordRules.Keyed
