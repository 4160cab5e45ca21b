/-
# What an allowlist permits

An entry without a final `.*` permits the path that it is. An entry with one permits what is
behind the path before it: that path, a point, and at least one more character. That is all
(`Allowlist.permits_iff`), and which entries there are is all that counts, whatever their order and
however often they are given (`Allowlist.ofList_eq_iff`).

An allowlist is about texts and a record about segments, but a point always separates two
segments. So a path that an entry with `.*` permits leads into the value that the path before it
leads to, be the segments empty, names or indices, and shows nothing outside it. Two records
that agree on what the entries name therefore agree on every permitted path
(`Allowlist.find?_eq_of_permits`).

Key definitions: `Allowlist.IsPlain`, `Allowlist.Below`, `Allowlist.Named`. Key theorems:
`Allowlist.permits_iff`, `Allowlist.ofList_eq_iff`, `Allowlist.find?_eq_of_permits`,
`allowlist_means_entries`.
-/
import RecordRules.Guard.Allowlist
import RecordRules.Proofs.Descent
import RecordRules.Proofs.Restoring

namespace RecordRules

namespace Allowlist

/-! ### Entries -/

/-- The entry stands for one path: it does not end in `.*`. -/
def IsPlain (entry : String) : Prop := ∀ top, entry ≠ top ++ ".*"

theorem wildcard?_eq_some_iff {entry before : List Char} :
    wildcard? entry = some before ↔ entry = before ++ ['.', '*'] := by
  unfold wildcard?
  constructor
  · intro found
    split at found
    · rename_i rest reversed
      cases found
      rw [List.reverse_eq_iff] at reversed
      simpa using reversed
    · cases found
  · rintro rfl
    simp

theorem wildcard?_toList {entry top : String} : wildcard? entry.toList = some top.toList ↔ entry = top ++ ".*" := by
  rw [wildcard?_eq_some_iff, ← String.toList_inj, String.toList_append]
  rfl

theorem wildcard?_eq_none_iff {entry : String} : wildcard? entry.toList = none ↔ IsPlain entry := by
  constructor
  · rintro none top rfl
    rw [wildcard?_toList.mpr rfl] at none
    cases none
  · intro plain
    cases found : wildcard? entry.toList with
    | none => rfl
    | some before =>
      have cut : wildcard? entry.toList = some (String.ofList before).toList := by rw [String.toList_ofList, found]
      exact absurd (wildcard?_toList.mp cut) (plain _)

variable {list : Allowlist} {entry path top : String} {entries : List String}

theorem mem_exact_allow :
    path ∈ (list.allow entry).exact ↔ (path = entry ∧ IsPlain path) ∨ path ∈ list.exact := by
  unfold allow
  cases found : wildcard? entry.toList with
  | none =>
    have plain := wildcard?_eq_none_iff.mp found
    rw [NameSet.mem_insert]
    refine or_congr_left ⟨?_, And.left⟩
    rintro rfl
    exact ⟨rfl, plain⟩
  | some before =>
    refine (or_iff_right ?_).symm
    rintro ⟨rfl, plain⟩
    rw [wildcard?_eq_none_iff.mpr plain] at found
    cases found

theorem mem_below_allow : top ∈ (list.allow entry).below ↔ entry = top ++ ".*" ∨ top ∈ list.below := by
  rw [← wildcard?_toList, allow]
  cases wildcard? entry.toList with
  | none => exact (or_iff_right nofun).symm
  | some before =>
    rw [NameSet.mem_insert, Option.some_inj, eq_comm, ← String.toList_inj, String.toList_ofList]

/-- **Plain entries.** -/
theorem mem_exact_ofList : path ∈ (ofList entries).exact ↔ path ∈ entries ∧ IsPlain path := by
  suffices ∀ list : Allowlist, path ∈ (entries.foldl allow list).exact ↔
      (path ∈ entries ∧ IsPlain path) ∨ path ∈ list.exact from
    (this empty).trans (or_iff_left NameSet.not_mem_empty)
  induction entries with
  | nil => simp
  | cons entry rest ih =>
    intro list
    rw [List.foldl_cons, ih, mem_exact_allow, List.mem_cons, or_and_right, or_left_comm, or_assoc]

/-- **Entries with `.*`.** -/
theorem mem_below_ofList : top ∈ (ofList entries).below ↔ top ++ ".*" ∈ entries := by
  suffices ∀ list : Allowlist, top ∈ (entries.foldl allow list).below ↔
      top ++ ".*" ∈ entries ∨ top ∈ list.below from
    (this empty).trans (or_iff_left NameSet.not_mem_empty)
  induction entries with
  | nil => simp
  | cons entry rest ih =>
    intro list
    rw [List.foldl_cons, ih, mem_below_allow, List.mem_cons, or_left_comm, or_assoc, eq_comm]

/-- An allowlist tells its entries. -/
theorem mem_iff_of_ofList : entry ∈ entries ↔
    entry ∈ (ofList entries).exact ∨ ∃ top, entry = top ++ ".*" ∧ top ∈ (ofList entries).below := by
  rw [mem_exact_ofList]
  simp only [mem_below_ofList]
  constructor
  · intro mem
    by_cases plain : IsPlain entry
    · exact .inl ⟨mem, plain⟩
    · obtain ⟨top, same⟩ := not_forall_not.mp plain
      exact .inr ⟨top, same, same ▸ mem⟩
  · rintro (⟨mem, _⟩ | ⟨top, rfl, mem⟩)
    · exact mem
    · exact mem

/-- **Only the entries count.** -/
theorem ofList_eq_iff {others : List String} :
    ofList entries = ofList others ↔ ∀ entry, entry ∈ entries ↔ entry ∈ others := by
  constructor
  · intro same entry
    rw [mem_iff_of_ofList, mem_iff_of_ofList, same]
  · intro same
    have exact : (ofList entries).exact = (ofList others).exact := NameSet.eq_of_mem_iff fun path => by
      rw [mem_exact_ofList, mem_exact_ofList, same]
    have below : (ofList entries).below = (ofList others).below := NameSet.eq_of_mem_iff fun top => by
      rw [mem_below_ofList, mem_below_ofList, same]
    generalize ofList entries = list, ofList others = list' at exact below
    obtain ⟨_, _⟩ := list
    obtain ⟨_, _⟩ := list'
    cases exact
    cases below
    rfl

/-! ### Permitted paths -/

/-- The path is another one, a point, and something more. -/
def Below (path top : String) : Prop := ∃ rest, rest ≠ "" ∧ path = top ++ "." ++ rest

theorem isBelow_iff : isBelow path.toList top.toList = true ↔ Below path top := by
  unfold isBelow
  rw [Bool.and_eq_true, List.isPrefixOf_iff_prefix]
  constructor
  · rintro ⟨⟨behind, text⟩, more⟩
    rw [← text, List.drop_left] at more
    split at more
    · rename_i c rest
      refine ⟨String.ofList (c :: rest), by simp, ?_⟩
      rw [← String.toList_inj, ← text]
      simp
    · cases more
  · rintro ⟨rest, nonempty, rfl⟩
    have text : (top ++ "." ++ rest).toList = top.toList ++ '.' :: rest.toList := by simp
    obtain ⟨c, cs, characters⟩ := List.exists_cons_of_ne_nil (mt String.toList_eq_nil_iff.mp nonempty)
    rw [text, List.drop_left, characters]
    exact ⟨List.prefix_append _ _, rfl⟩

/-- **What is permitted.** -/
theorem permits_iff : (ofList entries).permits path = true ↔
    (path ∈ entries ∧ IsPlain path) ∨ ∃ top, top ++ ".*" ∈ entries ∧ Below path top := by
  rw [permits, Bool.or_eq_true, decide_eq_true_eq, mem_exact_ofList, List.any_eq_true]
  refine or_congr_right (exists_congr fun top => ?_)
  rw [isBelow_iff]
  exact and_congr_left' mem_below_ofList

/-! ### Permitted fields -/

/-- An entry names the path: it is the path, or the path followed by `.*`. -/
def Named (entries : List String) (path : String) : Prop :=
  (path ∈ entries ∧ IsPlain path) ∨ path ++ ".*" ∈ entries

/-- **Nothing else is seen.** -/
theorem find?_eq_of_permits {record other : Record} (permitted : (ofList entries).permits path = true)
    (agree : ∀ path, Named entries path → Record.find? record path = Record.find? other path) :
    Record.find? record path = Record.find? other path := by
  rcases permits_iff.mp permitted with ⟨mem, plain⟩ | ⟨top, mem, rest, _, rfl⟩
  · exact agree path (.inl ⟨mem, plain⟩)
  · rw [Record.find?_below, Record.find?_below, agree top (.inr mem)]

/-- What is found below a path stands in the value at the path. -/
theorem within_of_find?_below {record : Record} {rest : String} {v : Value}
    (found : Record.find? record (top ++ "." ++ rest) = some v) :
    ∃ value, Record.find? record top = some value ∧ v.Within value := by
  rw [Record.find?_below] at found
  obtain ⟨value, reached, found⟩ := Option.bind_eq_some_iff.mp found
  exact ⟨value, reached, Path.within_descend found⟩

end Allowlist

/-- **An allowlist means its entries.** It permits a path exactly if an entry without a final `.*` is the path, or
an entry with one is followed, in place of the `*`, by something. Lists of entries make one allowlist exactly if
they have the same entries. Records with the same value, or none, at every path that an entry names, with or
without `.*`, have the same at every permitted path; and what is found below a path stands in the value that is
found at it. -/
theorem allowlist_means_entries (entries : List String) :
    (∀ path, (Allowlist.ofList entries).permits path = true ↔
      (∃ entry ∈ entries, Allowlist.IsPlain entry ∧ entry = path) ∨
        ∃ top rest, top ++ ".*" ∈ entries ∧ rest ≠ "" ∧ path = top ++ "." ++ rest) ∧
      (∀ others, Allowlist.ofList entries = Allowlist.ofList others ↔
        ∀ entry, entry ∈ entries ↔ entry ∈ others) ∧
      (∀ path, (Allowlist.ofList entries).permits path = true → ∀ record other : Record,
        (∀ named, Allowlist.Named entries named → Record.find? record named = Record.find? other named) →
          Record.find? record path = Record.find? other path) ∧
      ∀ (record : Record) (top rest : String) (v : Value), Record.find? record (top ++ "." ++ rest) = some v →
        ∃ value, Record.find? record top = some value ∧ v.Within value := by
  refine ⟨fun path => ?_, fun others => Allowlist.ofList_eq_iff,
    fun path permitted record other => Allowlist.find?_eq_of_permits permitted,
    fun record top rest v => Allowlist.within_of_find?_below⟩
  rw [Allowlist.permits_iff]
  refine or_congr ?_ (exists_congr fun top => exists_and_left.symm)
  constructor
  · rintro ⟨mem, plain⟩
    exact ⟨path, mem, plain, rfl⟩
  · rintro ⟨_, mem, plain, rfl⟩
    exact ⟨mem, plain⟩

/-- Entries below the empty path, below a path with a `*`, and below an array. A field whose name begins alike is
another field. -/
theorem allowlist_means_entries_array :
    let entries := ["fees.*", "a.*.*", ".*", "sum", "sum"]
    let list := Allowlist.ofList entries
    let paid (pay : Value) : Record := [("fees", .array [.null, .bool true]), ("feesPaid", .map [("sum", pay)])]
    list.permits ".x" = true ∧ list.permits "a.*.x" = true ∧ list.permits "fees.1" = true ∧
      list.permits "fees" = false ∧ list.permits "feesPaid.sum" = false ∧
      list = Allowlist.ofList [".*", "a.*.*", "fees.*", "sum"] ∧
      Record.find? (paid .null) "fees.1" = Record.find? (paid (.bool true)) "fees.1" ∧
      Record.find? (paid .null) "fees.1" = some (.bool true) ∧
      ∃ value, Record.find? (paid .null) "fees" = some value ∧ (Value.bool true).Within value := by
  intro entries list paid
  obtain ⟨permits, same, agree, inside⟩ := allowlist_means_entries entries
  have item : list.permits "fees.1" = true :=
    (permits "fees.1").mpr (.inr ⟨"fees", "1", by decide, by decide, by decide⟩)
  have named : ∀ path, Allowlist.Named entries path →
      Record.find? (paid .null) path = Record.find? (paid (.bool true)) path := by
    have exact : list.exact.toList = ["sum"] := by decide +kernel
    have below : list.below.toList = ["", "a.*", "fees"] := by decide +kernel
    rintro path (plain | top)
    · have mem : path ∈ list.exact.toList := Allowlist.mem_exact_ofList.mpr plain
      rw [exact] at mem
      cases List.mem_singleton.mp mem
      rfl
    · have mem : path ∈ list.below.toList := Allowlist.mem_below_ofList.mpr top
      rw [below] at mem
      simp only [List.mem_cons, List.not_mem_nil, or_false] at mem
      rcases mem with rfl | rfl | rfl <;> rfl
  have found : Record.find? (paid .null) "fees.1" = some (.bool true) := rfl
  refine ⟨?_, ?_, item, by decide +kernel, by decide +kernel, ?_, agree "fees.1" item _ _ named, found,
    inside (paid .null) "fees" "1" _ found⟩
  · exact (permits ".x").mpr (.inr ⟨"", "x", by decide, by decide, by decide⟩)
  · exact (permits "a.*.x").mpr (.inr ⟨"a.*", "x", by decide, by decide, by decide⟩)
  · exact (same _).mpr fun entry => by
      simp only [entries, List.mem_cons, List.not_mem_nil]
      tauto

end RecordRules
