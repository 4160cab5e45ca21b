/-
# Following a path

What a path leads to, said step by step: a name takes an entry out of a map, a number takes an
item out of an array, and nothing else leads anywhere (`Path.Leads`). The points of the path cut
it into the steps, so the empty text between two points is a name like any other, and a path
without a point is the name of a field (`Record.find?_name`). Where a number stands for an item,
it is written in digits, with a plus sign in front if wanted, and fits in 64 bits
(`Text.word64?_eq_some_iff`).

As the steps of two paths with a point between them are those of the one and then those of the
other, the way below a path begins at the value that the path leads to. It is a path of its own
if that value is a map, and ends there if the value has no parts.

Key definitions: `Text.IsIndex`, `Path.Leads`. Key theorems: `Path.descend_eq_some_iff`,
`Record.find?_composes`.
-/
import RecordRules.Proofs.Descent

namespace RecordRules

/-! ### Texts that are indices -/

namespace Text

variable {cs : List Char} {n : Nat}

/-- The text is a number in digits, one at least, with a plus sign in front or without one. -/
def IsIndex (cs : List Char) (n : Nat) : Prop :=
  ∃ digits, (cs = digits ∨ cs = '+' :: digits) ∧ digits ≠ [] ∧ (∀ c ∈ digits, c.isDigit = true) ∧
    Nat.ofDigitChars 10 digits 0 = n

theorem natural?_eq_some_iff :
    natural? cs = some n ↔ cs ≠ [] ∧ (∀ c ∈ cs, c.isDigit = true) ∧ Nat.ofDigitChars 10 cs 0 = n := by
  have written : (!cs.isEmpty && cs.all Char.isDigit) = true ↔ cs ≠ [] ∧ ∀ c ∈ cs, c.isDigit = true := by
    simp
  unfold natural?
  by_cases digits : (!cs.isEmpty && cs.all Char.isDigit) = true
  · rw [if_pos digits, Option.some_inj]
    exact ⟨fun value => ⟨(written.mp digits).1, (written.mp digits).2, value⟩, fun h => h.2.2⟩
  · rw [if_neg digits]
    exact iff_of_false nofun fun h => digits (written.mpr ⟨h.1, h.2.1⟩)

/-- **Indices.** What is read as an index is one that fits in 64 bits. -/
theorem word64?_eq_some_iff : word64? cs = some n ↔ IsIndex cs n ∧ n < 2 ^ 64 := by
  unfold word64?
  dsimp only
  rw [Option.filter_eq_some_iff, decide_eq_true_eq, natural?_eq_some_iff]
  refine and_congr_left fun _ => ?_
  split
  · rename_i rest
    constructor
    · exact fun written => ⟨rest, .inr rfl, written⟩
    · rintro ⟨digits, rfl | same, written⟩
      · -- a plus sign is no digit
        exact absurd (written.2.1 '+' List.mem_cons_self) (by decide)
      · cases same
        exact written
  · rename_i unsigned
    constructor
    · exact fun written => ⟨cs, .inl rfl, written⟩
    · rintro ⟨digits, rfl | signed, written⟩
      · exact written
      · exact absurd signed (unsigned digits)

end Text

/-! ### Steps -/

namespace Path

/-- The steps lead from the one value to the other: a name to the entry of a map, an index to the item of an
array. -/
inductive Leads : Value → List (List Char) → Value → Prop where
  | here {v} : Leads v [] v
  | entry {entries name way v w} : entries.lookup (String.ofList name) = some v → Leads v way w →
      Leads (.map entries) (name :: way) w
  | item {items index n way v w} : Text.IsIndex index n → n < 2 ^ 64 → items[n]? = some v → Leads v way w →
      Leads (.array items) (index :: way) w

variable {v w : Value} {items : List Value} {segment : List Char} {way : List (List Char)}

theorem enter_array_eq_some_iff : enter (.array items) segment = some w ↔
    ∃ n, Text.IsIndex segment n ∧ n < 2 ^ 64 ∧ items[n]? = some w := by
  simp only [enter, Option.bind_eq_some_iff, Text.word64?_eq_some_iff, and_assoc]

theorem enter_array_eq_none_iff : enter (.array items) segment = none ↔
    ¬ ∃ n, Text.IsIndex segment n ∧ n < 2 ^ 64 ∧ n < items.length := by
  rw [Option.eq_none_iff_forall_ne_some, not_exists]
  constructor
  · rintro nowhere n ⟨index, small, inside⟩
    exact nowhere items[n] (enter_array_eq_some_iff.mpr ⟨n, index, small, List.getElem?_eq_getElem inside⟩)
  · intro noIndex v entered
    obtain ⟨n, index, small, item⟩ := enter_array_eq_some_iff.mp entered
    exact noIndex n ⟨index, small, (List.getElem?_eq_some_iff.mp item).1⟩

/-- **Steps.** What is found along a way is what its steps lead to. -/
theorem descend_eq_some_iff : descend v way = some w ↔ Leads v way w := by
  induction way generalizing v with
  | nil =>
    rw [descend_nil, Option.some_inj]
    constructor
    · rintro rfl
      exact .here
    · rintro ⟨⟩
      rfl
  | cons segment way ih =>
    simp only [descend_cons, Option.bind_eq_some_iff, ih]
    constructor
    · rintro ⟨u, entered, leads⟩
      cases v with
      | map entries => exact .entry entered leads
      | array items =>
        obtain ⟨n, index, small, item⟩ := enter_array_eq_some_iff.mp entered
        exact .item index small item leads
      | _ => cases entered
    · intro leads
      cases leads with
      | entry found leads => exact ⟨_, found, leads⟩
      | item index small item leads => exact ⟨_, enter_array_eq_some_iff.mpr ⟨_, index, small, item⟩, leads⟩

/-- The points cut a path as they cut any text. -/
theorem segments_eq_splitOn (path : String) : segments path = path.toList.splitOn '.' := by
  unfold segments
  induction path.toList with
  | nil => rfl
  | cons c cs ih =>
    rw [List.splitOn_cons_eq_if_modifyHead, ← ih]
    by_cases point : c = '.' <;> simp [Text.cut, point]

/-- No step leads on from a value without parts. -/
theorem descend_of_scalar (noMap : v.entries? = none) (noArray : v.items? = none) :
    descend v (segment :: way) = none := by
  cases v with
  | map => cases noMap
  | array => cases noArray
  | _ => rfl

end Path

/-! ### Paths into a record -/

namespace Record

variable {record : Record} {path below name : String}

theorem find?_eq_some_iff {v : Value} :
    find? record path = some v ↔ Path.Leads (.map record) (path.toList.splitOn '.') v := by
  rw [← Path.segments_eq_splitOn, ← Path.descend_eq_some_iff]
  rfl

/-- A path without a point is the name of a field. -/
theorem find?_name (whole : '.' ∉ name.toList) : find? record name = record.lookup name := by
  have alone : Path.segments name = [name.toList] := by
    rw [Path.segments_eq_splitOn, List.splitOn_eq_singleton whole]
  show Path.descend (.map record) (Path.segments name) = _
  rw [alone, Path.descend_cons, Path.enter, String.ofList_toList]
  cases record.lookup name with
  | none => rfl
  | some v => exact Path.descend_nil v

/-- A field that is there is found, whatever its value. -/
theorem find?_name_eq_none_iff (whole : '.' ∉ name.toList) :
    find? record name = none ↔ name ∉ record.map Prod.fst := by
  rw [find?_name whole, List.lookup_eq_none_iff, List.mem_map]
  constructor
  · rintro other ⟨field, mem, rfl⟩
    simpa using other field mem
  · intro absent field mem
    rw [bne_iff_ne]
    exact fun same => absent ⟨field, mem, same.symm⟩

theorem find?_below_of_some {v : Value} (found : find? record path = some v) :
    find? record (path ++ "." ++ below) = Path.descend v (below.toList.splitOn '.') := by
  rw [find?_below, found, Option.bind_some, Path.segments_eq_splitOn]

/-- **Paths compose.** A path leads where its steps lead. Below a path that leads nowhere or to a value without
parts, nothing is found; below one that leads to a map, what the map has at the second path; and below one that
leads to an array, what the other steps of the second path lead to from the item that the first step is the index
of, if it is the index of one. A name without a point leads to the field of that name, whatever stands in it. -/
theorem find?_composes (record : Record) (path below : String) :
    (∀ v, find? record path = some v ↔ Path.Leads (.map record) (path.toList.splitOn '.') v) ∧
      (∀ name : String, '.' ∉ name.toList → find? record name = record.lookup name ∧
        (find? record name = none ↔ name ∉ record.map Prod.fst)) ∧
      (find? record path = none → find? record (path ++ "." ++ below) = none) ∧
      (∀ v, find? record path = some v → v.entries? = none → v.items? = none →
        find? record (path ++ "." ++ below) = none) ∧
      (∀ entries, find? record path = some (.map entries) →
        find? record (path ++ "." ++ below) = find? entries below) ∧
      ∀ items index way, find? record path = some (.array items) → below.toList.splitOn '.' = index :: way →
        ((¬ ∃ n, Text.IsIndex index n ∧ n < 2 ^ 64 ∧ n < items.length) →
          find? record (path ++ "." ++ below) = none) ∧
        ∀ n item, Text.IsIndex index n → n < 2 ^ 64 → items[n]? = some item →
          (way = [] → find? record (path ++ "." ++ below) = some item) ∧
            ∀ v, find? record (path ++ "." ++ below) = some v ↔ Path.Leads item way v := by
  refine ⟨fun v => find?_eq_some_iff, fun name whole => ⟨find?_name whole, find?_name_eq_none_iff whole⟩, ?_, ?_, ?_, ?_⟩
  · intro absent
    rw [find?_below, absent, Option.bind_none]
  · intro v found noMap noArray
    rw [find?_below, found, Option.bind_some]
    exact Path.descend_of_scalar noMap noArray
  · intro entries found
    rw [find?_below, found, Option.bind_some]
    rfl
  · intro items index way found cut
    have steps : find? record (path ++ "." ++ below) =
        (Path.enter (.array items) index).bind fun item => Path.descend item way := by
      rw [find?_below_of_some found, cut, Path.descend_cons]
    refine ⟨fun noIndex => ?_, fun n item isIndex small there => ?_⟩
    · rw [steps, Path.enter_array_eq_none_iff.mpr noIndex, Option.bind_none]
    · rw [steps, Path.enter_array_eq_some_iff.mpr ⟨n, isIndex, small, there⟩, Option.bind_some]
      refine ⟨?_, fun v => Path.descend_eq_some_iff⟩
      rintro rfl
      exact Path.descend_nil item

/-- An item by its index with a sign and a zero, and the entry of it whose name is empty; an index that 64 bits do
not hold, which would be 1 if it were cut to them; and what is below null, which is found itself. -/
theorem find?_composes_item :
    let row : Value := .map [("", .null), ("sum", .bool true)]
    let record : Record := [("", .null), ("rows", .array [.null, row])]
    find? record ("rows" ++ "." ++ "+01.") = some .null ∧ find? record ("rows" ++ "." ++ "1") = some row ∧
      find? record ("rows" ++ "." ++ "18446744073709551617") = none ∧
      find? record "" = some .null ∧ find? record ("" ++ "." ++ "sum") = none := by
  intro row record
  have rows : find? record "rows" = some (.array [.null, row]) := rfl
  have second : [Value.null, row][1]? = some row := rfl
  have small : 1 < 2 ^ 64 := by decide
  have one : Text.IsIndex "1".toList 1 := ⟨['1'], .inl rfl, by decide, List.all_eq_true.mp rfl, rfl⟩
  have signed : Text.IsIndex "+01".toList 1 := ⟨['0', '1'], .inr rfl, by decide, List.all_eq_true.mp rfl, rfl⟩
  have tooLarge : ¬ ∃ n, Text.IsIndex "18446744073709551617".toList n ∧ n < 2 ^ 64 ∧ n < 2 := by
    rintro ⟨n, isIndex, small, -⟩
    have read := Text.word64?_eq_some_iff.mpr ⟨isIndex, small⟩
    have none : Text.word64? "18446744073709551617".toList = none := by decide
    cases none.symm.trans read
  obtain ⟨-, -, -, -, -, entry⟩ := find?_composes record "rows" "+01."
  obtain ⟨-, -, -, -, -, item⟩ := find?_composes record "rows" "1"
  obtain ⟨-, -, -, -, -, beyond⟩ := find?_composes record "rows" "18446744073709551617"
  obtain ⟨-, field, -, scalar, -, -⟩ := find?_composes record "" "sum"
  obtain ⟨-, leads⟩ := (entry _ "+01".toList [[]] rows (by decide)).2 1 row signed small second
  obtain ⟨whole, -⟩ := (item _ "1".toList [] rows (by decide)).2 1 row one small second
  have empty : find? record "" = some .null := (field "" (by decide)).1
  exact ⟨(leads .null).mpr (.entry rfl .here), whole rfl, (beyond _ _ [] rows (by decide)).1 tooLarge, empty,
    scalar .null empty rfl rfl⟩

end Record
end RecordRules
