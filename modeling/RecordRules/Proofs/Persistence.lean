/-
# Changes that are stored and restored

A change that was built from plain JSON is stored with decimals and dates tagged, and what is
read from that text is a change again. Two things can make it another one. Plain JSON may hold
maps that look like a tagged value: a single entry, a text under `$decimal` or `$date` that reads
as what the tag says. Storing writes them as they are, and restoring takes them for what they
look like. And a number comes back as what the decoder reads of its text, which need not be the
nearest number. Apart from that, the decoder has to accept the text: to read all its numbers, and
to allow as many open arrays and objects as there are.

A value is restored part by part. Each part has to survive by itself: a number as it is
finite, a date as its text reads back, a map as it is not taken for a scalar. If all parts of
a value do and its numbers are kept, the value is restored, and if not, what is restored is not
the same (`same_restored_iff`).

Key definitions: `Value.LooksTagged`, `Value.Storable`, `Value.restored`, `Value.TagFree`,
`Change.restored?`. Key theorems: `Value.restored_eq`, `Value.same_restored_iff`, `Value.restores`,
`Change.restores`, `Change.restored_same_iff`.
-/
import RecordRules.Evaluate
import RecordRules.Proofs.Entries
import RecordRules.Proofs.Equality
import RecordRules.Proofs.JsonReading

namespace RecordRules

namespace Value

/-! ### Parts that survive -/

/-- The map has one entry, a text under a tag that reads as what the tag says. -/
def LooksTagged (entries : List (String × Value)) : Prop :=
  ∃ s, entries = [(decimalTag, .string s)] ∧ (Decimal.ofString? s).isSome ∨
    entries = [(dateTag, .string s)] ∧ (Instant.readTimestamp? s.toList).isSome

/-- The value as such is written as something that is read as it, whatever is in it. -/
def Survives : Value → Prop
  | .number x => x.isFinite = true
  | .date t => Instant.readTimestamp? (t.text .exact) = some t
  | .map entries => ¬ LooksTagged entries
  | _ => True

/-- All parts of the value survive. -/
def Storable (value : Value) : Prop := ∀ part : Value, part.Within value → part.Survives

/-! What comes back when values are stored, and read by a decoder that accepts what is stored. -/

section
variable (numbers : Json.NumberReader)

def restored (value : Value) : Value := ofTagged (value.toTagged.mapNumbers numbers.reread)

def restoredItems (items : List Value) : List Value :=
  itemsOfTagged (Json.itemsMapNumbers numbers.reread (itemsToTagged items))

def restoredEntries (entries : List (String × Value)) : List (String × Value) :=
  entriesOfTagged (Json.membersMapNumbers numbers.reread (entriesToTagged entries))

end

section
variable {items : List Value} {entries : List (String × Value)}

/-- A text under a tag is taken for a scalar if it reads as what the tag says. -/
theorem scalarOfTag?_string (name s : String) : scalarOfTag? [(name, .string s)] = none ↔
    ¬ LooksTagged [(name, .string s)] := by
  have different : decimalTag ≠ dateTag := by decide
  unfold scalarOfTag? LooksTagged
  by_cases decimal : name = decimalTag
  · simp [decimal, different]
  · by_cases date : name = dateTag
    · simp [date, different.symm]
    · simp [decimal, date]

/-- The entries of a map are taken for a scalar if they look like one, whatever becomes of numbers. -/
theorem scalarOfTag?_eq_none_iff (f : Json.Number → Json.Number) :
    scalarOfTag? (Json.membersMapNumbers f (entriesToTagged entries)) = none ↔ ¬ LooksTagged entries := by
  match entries with
  | [] => simp [entriesToTagged, Json.membersMapNumbers, scalarOfTag?, LooksTagged]
  | [(name, value)] =>
    cases value with
    | string s => exact scalarOfTag?_string name s
    | number x =>
      by_cases finite : x.isFinite = true <;>
        simp [entriesToTagged, toTagged, Json.binary64, finite, Json.membersMapNumbers, Json.mapNumbers,
          scalarOfTag?, LooksTagged]
    | _ =>
      simp [entriesToTagged, toTagged, Json.membersMapNumbers, Json.mapNumbers, scalarOfTag?, LooksTagged]
  | first :: second :: more => simp [entriesToTagged, Json.membersMapNumbers, scalarOfTag?, LooksTagged]

theorem storable_scalar_iff {v : Value} (noArray : v.items? = none) (noMap : v.entries? = none) :
    v.Storable ↔ v.Survives := forall_within_scalar_iff noArray noMap

theorem storable_array_iff : (array items).Storable ↔ ∀ item ∈ items, item.Storable :=
  forall_within_array_iff.trans (and_iff_right trivial)

theorem storable_map_iff :
    (map entries).Storable ↔ ¬ LooksTagged entries ∧ ∀ entry ∈ entries, entry.2.Storable := forall_within_map_iff

end

/-! ### Restoring a value -/

theorem entriesToTagged_names (entries : List (String × Value)) :
    (entriesToTagged entries).map Prod.fst = entries.map Prod.fst := by
  induction entries with
  | nil => rfl
  | cons entry rest ih => exact congrArg (entry.1 :: ·) ih

theorem entriesOfTagged_names (members : List (String × Json)) :
    (entriesOfTagged members).map Prod.fst = members.map Prod.fst := by
  induction members with
  | nil => rfl
  | cons member rest ih => exact congrArg (member.1 :: ·) ih

section
variable {numbers : Json.NumberReader} {entries : List (String × Value)}

/-- What is written of entries in order is in order. -/
theorem ascending_entriesToTagged (f : Json.Number → Json.Number) (ascending : Keyed.Ascending entries) :
    Keyed.Ascending (Json.membersMapNumbers f (entriesToTagged entries)) := by
  rwa [Keyed.Ascending, Json.membersMapNumbers_names, entriesToTagged_names]

/-- What is read from members in order is in order. -/
theorem ofList_entriesOfTagged {members : List (String × Json)} (ascending : Keyed.Ascending members) :
    Keyed.ofList (entriesOfTagged members) = entriesOfTagged members := by
  refine Keyed.ofList_of_ascending ?_
  rwa [Keyed.Ascending, entriesOfTagged_names]

/-- What is read from the entries of a map keeps their order. -/
theorem ofList_restoredEntries (ascending : Keyed.Ascending entries) :
    Keyed.ofList (restoredEntries numbers entries) = restoredEntries numbers entries :=
  ofList_entriesOfTagged (ascending_entriesToTagged numbers.reread ascending)

/-- A map that does not look like a tagged value is read as a map. -/
theorem restored_map (ascending : Keyed.Ascending entries) (plain : ¬ LooksTagged entries) :
    (map entries).restored numbers = .map (restoredEntries numbers entries) := by
  rw [restored, toTagged, Json.mapNumbers, ofTagged, (scalarOfTag?_eq_none_iff numbers.reread).mpr plain,
    Option.getD_none]
  exact congrArg map (ofList_restoredEntries ascending)

/-- A map that does is read as something else. -/
theorem restored_of_looksTagged (looks : LooksTagged entries) (others : List (String × Value)) :
    (map entries).restored numbers ≠ .map others := by
  obtain ⟨s, ⟨rfl, reads⟩ | ⟨rfl, reads⟩⟩ := looks
  · obtain ⟨d, read⟩ := Option.isSome_iff_exists.mp reads
    simp [restored, toTagged, entriesToTagged, Json.mapNumbers, Json.membersMapNumbers, ofTagged, scalarOfTag?, read]
  · obtain ⟨t, read⟩ := Option.isSome_iff_exists.mp reads
    have different : dateTag ≠ decimalTag := by decide
    simp [restored, toTagged, entriesToTagged, Json.mapNumbers, Json.membersMapNumbers, ofTagged, scalarOfTag?,
      different, read]

/-- A finite number is read as the reader has it from its text, and any other is not read as a number. -/
theorem restored_number (numbers : Json.NumberReader) (x : Binary64) : (number x).restored numbers =
    if x.isFinite then .number (numbers.reread (.float x)).toBinary64 else .null := by
  unfold restored toTagged Json.binary64
  split <;> rfl

theorem restored_date (numbers : Json.NumberReader) (t : Instant) : (date t).restored numbers =
    ((Instant.readTimestamp? (t.text .exact)).map date).getD
      (.map [(dateTag, .string (String.ofList (t.text .exact)))]) := by
  have different : dateTag ≠ decimalTag := by decide
  have tagged : (date t).toTagged.mapNumbers numbers.reread = (date t).toTagged := rfl
  rw [restored, tagged, toTagged, ofTagged, scalarOfTag?, if_neg different, if_pos rfl, String.toList_ofList]
  rfl

end

section
variable {numbers : Json.NumberReader}

mutual

/-- **What survives is restored**, if the numbers are kept. -/
theorem restored_eq : ∀ v : Value, v.WellFormed → v.Storable → v.toTagged.EachNumber numbers.Keeps →
    v.restored numbers = v
  | .null, _, _, _ => rfl
  | .bool _, _, _, _ => rfl
  | .string _, _, _, _ => rfl
  | .number x, _, h, keeps => by
    have finite : x.isFinite = true := h _ .self
    rw [restored_number, if_pos finite, (Json.eachNumber_binary64.mp keeps finite).toBinary64_reread]
    rfl
  | .decimal d, _, _, _ => by
    have tagged : (decimal d).toTagged.mapNumbers numbers.reread = (decimal d).toTagged := rfl
    rw [restored, tagged, toTagged, ofTagged, scalarOfTag?, if_pos rfl, Decimal.ofString?_text]
    rfl
  | .date t, _, h, _ => by
    have read : Instant.readTimestamp? (t.text .exact) = some t := h _ .self
    rw [restored_date, read]
    rfl
  | .array items, well, h, keeps =>
    congrArg array (restoredItems_eq items well (storable_array_iff.mp h) keeps)
  | .map entries, well, h, keeps => by
    obtain ⟨plain, each⟩ := storable_map_iff.mp h
    rw [restored_map well.1 plain, restoredEntries_eq entries well.2 each keeps]

theorem restoredItems_eq : ∀ items : List Value, itemsWellFormed items → (∀ item ∈ items, item.Storable) →
    Json.itemsEachNumber numbers.Keeps (itemsToTagged items) → restoredItems numbers items = items
  | [], _, _, _ => rfl
  | item :: rest, well, h, keeps => by
    obtain ⟨first, more⟩ := List.forall_mem_cons.mp h
    exact congrArg₂ List.cons (restored_eq item well.1 first keeps.1) (restoredItems_eq rest well.2 more keeps.2)

theorem restoredEntries_eq : ∀ entries : List (String × Value), entriesWellFormed entries →
    (∀ entry ∈ entries, entry.2.Storable) → Json.membersEachNumber numbers.Keeps (entriesToTagged entries) →
    restoredEntries numbers entries = entries
  | [], _, _, _ => rfl
  | (name, value) :: rest, well, h, keeps => by
    obtain ⟨first, more⟩ := List.forall_mem_cons.mp h
    exact congrArg₂ (fun value rest => (name, value) :: rest) (restored_eq value well.1 first keeps.1)
      (restoredEntries_eq rest well.2 more keeps.2)

end

theorem same_restored_scalar {v : Value} (noArray : v.items? = none) (noMap : v.entries? = none)
    (well : v.WellFormed) (survives : v.Survives) (keeps : v.toTagged.EachNumber numbers.Keeps)
    (self : v.same v = true) :
    v.same (v.restored numbers) = true ↔ v.Storable ∧ v.toTagged.EachNumber numbers.Keeps := by
  have storable := (storable_scalar_iff noArray noMap).mpr survives
  rw [restored_eq v well storable keeps]
  exact iff_of_true self ⟨storable, keeps⟩

mutual

/-- **What does not survive is not restored.** The value that comes back has the form of the one that was
stored exactly if all parts survive and all numbers are kept. -/
theorem same_restored_iff : ∀ v : Value, v.WellFormed → v.toTagged.EachNumber numbers.Reads →
    (v.same (v.restored numbers) = true ↔ v.Storable ∧ v.toTagged.EachNumber numbers.Keeps)
  | .null, well, _ => same_restored_scalar rfl rfl well trivial trivial rfl
  | .bool _, well, _ => same_restored_scalar rfl rfl well trivial trivial (by rw [same, beq_self_eq_true])
  | .string _, well, _ => same_restored_scalar rfl rfl well trivial trivial (by rw [same, beq_self_eq_true])
  | .decimal _, well, _ =>
    same_restored_scalar rfl rfl well trivial ⟨trivial, trivial⟩ (by rw [same, beq_self_eq_true])
  | .number x, _, reads => by
    rw [storable_scalar_iff rfl rfl, Survives, restored_number, toTagged]
    by_cases finite : x.isFinite = true
    · rw [if_pos finite, same, ← Json.NumberReader.keeps_iff_eq (Json.eachNumber_binary64.mp reads finite),
        Json.eachNumber_binary64]
      exact ⟨fun keeps => ⟨finite, fun _ => keeps⟩, fun both => both.2 finite⟩
    · rw [if_neg finite]
      exact iff_of_false nofun fun both => finite both.1
  | .date t, _, _ => by
    rw [storable_scalar_iff rfl rfl, Survives, restored_date]
    cases Instant.readTimestamp? (t.text .exact) with
    | none => exact iff_of_false nofun fun both => nomatch both.1
    | some read =>
      rw [Option.map_some, Option.getD_some, same, beq_iff_eq, Option.some_inj, eq_comm]
      exact (and_iff_left ⟨trivial, trivial⟩).symm
  | .array items, well, reads => by
    rw [storable_array_iff]
    exact sameItems_restored_iff items well reads
  | .map entries, well, reads => by
    rw [storable_map_iff, and_assoc]
    by_cases looks : LooksTagged entries
    · have differs : (map entries).same ((map entries).restored numbers) = false := by
        cases found : (map entries).restored numbers with
        | map others => exact absurd found (restored_of_looksTagged looks others)
        | _ => rfl
      simp [differs, looks]
    · rw [restored_map well.1 looks, same, sameEntries_restored_iff entries well.2 reads]
      exact (and_iff_right looks).symm

theorem sameItems_restored_iff : ∀ items : List Value, itemsWellFormed items →
    Json.itemsEachNumber numbers.Reads (itemsToTagged items) →
    (sameItems items (restoredItems numbers items) = true ↔
      (∀ item ∈ items, item.Storable) ∧ Json.itemsEachNumber numbers.Keeps (itemsToTagged items))
  | [], _, _ => iff_of_true rfl ⟨nofun, trivial⟩
  | item :: rest, well, reads => by
    have first := same_restored_iff item well.1 reads.1
    have more := sameItems_restored_iff rest well.2 reads.2
    rw [List.forall_mem_cons, itemsToTagged, Json.itemsEachNumber, and_and_and_comm, ← first, ← more,
      ← Bool.and_eq_true]
    rfl

theorem sameEntries_restored_iff : ∀ entries : List (String × Value), entriesWellFormed entries →
    Json.membersEachNumber numbers.Reads (entriesToTagged entries) →
    (sameEntries entries (restoredEntries numbers entries) = true ↔
      (∀ entry ∈ entries, entry.2.Storable) ∧ Json.membersEachNumber numbers.Keeps (entriesToTagged entries))
  | [], _, _ => iff_of_true rfl ⟨nofun, trivial⟩
  | (name, value) :: rest, well, reads => by
    have first := same_restored_iff value well.1 reads.1
    have more := sameEntries_restored_iff rest well.2 reads.2
    have names : sameEntries ((name, value) :: rest) (restoredEntries numbers ((name, value) :: rest)) =
      (name == name && value.same (value.restored numbers) && sameEntries rest (restoredEntries numbers rest)) := rfl
    rw [names, beq_self_eq_true, Bool.true_and, List.forall_mem_cons, entriesToTagged, Json.membersEachNumber,
      and_and_and_comm, ← first, ← more, Bool.and_eq_true]

end

end

/-! ### The text of a value -/

mutual

/-- Whatever the value, what is written of it are numbers that there can be. -/
theorem valid_toTagged : ∀ v : Value, v.toTagged.Valid
  | .null | .bool _ | .string _ => trivial
  | .number _ => Json.eachNumber_binary64.mpr id
  | .decimal _ => ⟨trivial, trivial⟩
  | .date _ => ⟨trivial, trivial⟩
  | .array items => valid_itemsToTagged items
  | .map entries => valid_entriesToTagged entries

theorem valid_itemsToTagged :
    ∀ items : List Value, Json.itemsEachNumber Json.Number.Valid (itemsToTagged items)
  | [] => trivial
  | item :: rest => ⟨valid_toTagged item, valid_itemsToTagged rest⟩

theorem valid_entriesToTagged :
    ∀ entries : List (String × Value), Json.membersEachNumber Json.Number.Valid (entriesToTagged entries)
  | [] => trivial
  | (_, value) :: rest => ⟨valid_toTagged value, valid_entriesToTagged rest⟩

end

section
variable (f : Json.Number → Json.Number)

mutual

/-- The members are written in the order of the entries. -/
theorem inOrder_toTagged :
    ∀ v : Value, v.WellFormed → (v.toTagged.mapNumbers f).inOrder = v.toTagged.mapNumbers f
  | .null, _ | .bool _, _ | .string _, _ | .decimal _, _ | .date _, _ => rfl
  | .number x, _ => Json.inOrder_mapNumbers_binary64 f x
  | .array items, well => congrArg Json.array (inOrder_itemsToTagged items well)
  | .map entries, well => by
    have ascending := ascending_entriesToTagged f well.1
    rw [toTagged, Json.mapNumbers, Json.inOrder, inOrder_entriesToTagged entries well.2,
      Keyed.ofList_of_ascending ascending]

theorem inOrder_itemsToTagged : ∀ items : List Value, itemsWellFormed items →
    Json.itemsInOrder (Json.itemsMapNumbers f (itemsToTagged items)) =
      Json.itemsMapNumbers f (itemsToTagged items)
  | [], _ => rfl
  | item :: rest, well =>
    congrArg₂ List.cons (inOrder_toTagged item well.1) (inOrder_itemsToTagged rest well.2)

theorem inOrder_entriesToTagged : ∀ entries : List (String × Value), entriesWellFormed entries →
    Json.membersInOrder (Json.membersMapNumbers f (entriesToTagged entries)) =
      Json.membersMapNumbers f (entriesToTagged entries)
  | [], _ => rfl
  | (name, value) :: rest, well =>
    congrArg₂ (fun value rest => (name, value) :: rest) (inOrder_toTagged value well.1)
      (inOrder_entriesToTagged rest well.2)

end

end

/-- What comes back of a value that is stored as a text of JSON and read from it. -/
def restored? (value : Value) (decoder : Json.Decoder) : Option Value :=
  (decoder.read? value.toTagged.write).map ofTagged

/-- **Stored values.** A value comes back from its text if the decoder accepts what is written of it. -/
theorem restores {v : Value} (well : v.WellFormed) (decoder : Json.Decoder) :
    Restores (v.restored decoder.numbers) (decoder.Accepts v.toTagged) (v.restored? decoder) := by
  have read := (decoder.restores_write (valid_toTagged v)).map ofTagged
  rwa [inOrder_toTagged _ v well] at read

/-! ### Values of plain JSON -/

/-- The value as such can be read from plain JSON. -/
def IsPlain : Value → Prop
  | .number x => x.isFinite = true
  | .decimal _ | .date _ => False
  | _ => True

mutual

/-- Maps are put in order when they are read. -/
theorem wellFormed_ofPlain : ∀ j : Json, (ofPlain j).WellFormed
  | .null | .bool _ | .number _ | .string _ => trivial
  | .array items => itemsWellFormed_iff.mpr (wellFormed_itemsOfPlain items)
  | .object members =>
    ⟨Keyed.ascending_ofList _, entriesWellFormed_iff.mpr fun entry mem =>
      wellFormed_entriesOfPlain members entry (Keyed.mem_of_mem_ofList mem)⟩

theorem wellFormed_itemsOfPlain : ∀ (items : List Json), ∀ item ∈ itemsOfPlain items, item.WellFormed
  | [] => nofun
  | item :: rest => List.forall_mem_cons.mpr ⟨wellFormed_ofPlain item, wellFormed_itemsOfPlain rest⟩

theorem wellFormed_entriesOfPlain : ∀ (members : List (String × Json)), ∀ entry ∈ entriesOfPlain members,
    entry.2.WellFormed
  | [] => nofun
  | (_, value) :: rest => List.forall_mem_cons.mpr ⟨wellFormed_ofPlain value, wellFormed_entriesOfPlain rest⟩

end

mutual

/-- Nothing else than plain values stands in what is read from plain JSON. -/
theorem isPlain_of_within : ∀ j : Json, j.Valid → ∀ part : Value, part.Within (ofPlain j) → part.IsPlain
  | .null, _ | .bool _, _ | .string _, _ => (forall_within_scalar_iff rfl rfl).mpr trivial
  | .number _, valid => (forall_within_scalar_iff rfl rfl).mpr (Json.isFinite_toBinary64 valid)
  | .array items, valid => forall_within_array_iff.mpr ⟨trivial, isPlain_of_within_items items valid⟩
  | .object members, valid => forall_within_map_iff.mpr ⟨trivial, fun entry mem =>
      isPlain_of_within_entries members valid entry (Keyed.mem_of_mem_ofList mem)⟩

theorem isPlain_of_within_items : ∀ items : List Json, Json.itemsEachNumber Json.Number.Valid items →
    ∀ item ∈ itemsOfPlain items, ∀ part : Value, part.Within item → part.IsPlain
  | [], _ => nofun
  | item :: rest, valid =>
    List.forall_mem_cons.mpr ⟨isPlain_of_within item valid.1, isPlain_of_within_items rest valid.2⟩

theorem isPlain_of_within_entries : ∀ members : List (String × Json),
    Json.membersEachNumber Json.Number.Valid members →
    ∀ entry ∈ entriesOfPlain members, ∀ part : Value, part.Within entry.2 → part.IsPlain
  | [], _ => nofun
  | (_, value) :: rest, valid =>
    List.forall_mem_cons.mpr ⟨isPlain_of_within value valid.1, isPlain_of_within_entries rest valid.2⟩

end

/-- No map in the value looks like a tagged value. -/
def TagFree (value : Value) : Prop :=
  ∀ entries : List (String × Value), (map entries).Within value → ¬ LooksTagged entries

theorem storable_iff_tagFree {value : Value} (plain : ∀ part : Value, part.Within value → part.IsPlain) :
    value.Storable ↔ value.TagFree := by
  refine ⟨fun h entries within => h (.map entries) within, fun h part within => ?_⟩
  have isPlain := plain part within
  cases part with
  | number => exact isPlain
  | date => exact isPlain.elim
  | map entries => exact h entries within
  | _ => trivial

end Value

/-! ### Stored changes -/

namespace Change

/-- Both records have their entries in ascending order at every depth. -/
structure WellFormed (change : Change) : Prop where
  after : (Value.map change.after).WellFormed
  before : ∀ record, change.before = some record → (Value.map record).WellFormed

/-- What comes back when the change is stored, and read by a decoder that accepts it. A record is not taken for
a tagged value itself. -/
def restored (numbers : Json.NumberReader) (change : Change) : Change :=
  ⟨change.before.map (Value.restoredEntries numbers), Value.restoredEntries numbers change.after⟩

/-- What comes back of a change that is stored as a text of JSON and read from it. -/
def restored? (change : Change) (decoder : Json.Decoder) : Option Change :=
  (decoder.read? change.toTagged.write).bind ofTagged?

/-- A side of a stored change. -/
def sideToTagged (record : Record) : Json := .object (Value.entriesToTagged record)

section
variable {change : Change} {record : Record}

/-- The numbers of a stored change are those of its sides. -/
theorem eachNumber_toTagged {p : Json.Number → Prop} : change.toTagged.EachNumber p ↔
    (∀ record, change.before = some record → (sideToTagged record).EachNumber p) ∧
      (sideToTagged change.after).EachNumber p := by
  obtain ⟨before, after⟩ := change
  refine (and_congr ?_ (and_iff_left trivial) : _ ∧ _ ∧ True ↔ _)
  cases before with
  | none => exact iff_of_true trivial nofun
  | some record => exact ⟨fun each _ same => by cases same; exact each, fun each => each record rfl⟩

theorem valid_toTagged (change : Change) : change.toTagged.Valid :=
  eachNumber_toTagged.mpr
    ⟨fun record _ => Value.valid_toTagged (.map record), Value.valid_toTagged (.map change.after)⟩

/-- The two sides as they are read: in order of their names. -/
theorem inOrder_toTagged (well : change.WellFormed) (f : Json.Number → Json.Number) :
    (change.toTagged.mapNumbers f).inOrder =
      .object [("after", (sideToTagged change.after).mapNumbers f),
        ("before", change.before.elim .null fun record => (sideToTagged record).mapNumbers f)] := by
  obtain ⟨before, after⟩ := change
  have sorted : "after" < "before" := by decide
  have right : ((sideToTagged after).mapNumbers f).inOrder = _ := Value.inOrder_toTagged f (.map after) well.after
  have left : ((before.elim .null sideToTagged).mapNumbers f).inOrder =
      before.elim .null fun record => (sideToTagged record).mapNumbers f := by
    cases before with
    | none => rfl
    | some record => exact Value.inOrder_toTagged f (.map record) (well.before record rfl)
  show Json.object (Keyed.ofList [("before", ((before.elim .null sideToTagged).mapNumbers f).inOrder),
    ("after", ((sideToTagged after).mapNumbers f).inOrder)]) = _
  rw [left, right]
  simp only [Keyed.ofList, List.foldl_cons, List.foldl_nil, Keyed.insert, if_pos sorted]
  rfl

theorem recordOfTagged?_sideToTagged (numbers : Json.NumberReader) (well : (Value.map record).WellFormed) :
    recordOfTagged? ((sideToTagged record).mapNumbers numbers.reread) =
      some (Value.restoredEntries numbers record) :=
  congrArg some (Value.ofList_restoredEntries well.1)

/-- Each side is read by itself. -/
theorem ofTagged?_inOrder (well : change.WellFormed) (numbers : Json.NumberReader) :
    ofTagged? (change.toTagged.mapNumbers numbers.reread).inOrder = some (change.restored numbers) := by
  have after := recordOfTagged?_sideToTagged numbers well.after
  rw [inOrder_toTagged well]
  unfold ofTagged? restored Json.fields?
  cases h : change.before with
  | none => simp [after, List.lookup, Json.nonNull?]
  | some record =>
    have before := recordOfTagged?_sideToTagged numbers (well.before record h)
    have nonNull : Json.nonNull? ((sideToTagged record).mapNumbers numbers.reread) =
      some ((sideToTagged record).mapNumbers numbers.reread) := rfl
    simp [after, before, List.lookup, nonNull]

/-- **Stored changes.** A change comes back from its text if the decoder accepts what is written of it. -/
theorem restores (well : change.WellFormed) (decoder : Json.Decoder) :
    Restores (change.restored decoder.numbers) (decoder.Accepts change.toTagged) (change.restored? decoder) := by
  have sides := restores_some (x := change.restored decoder.numbers) trivial
  rw [← ofTagged?_inOrder well] at sides
  exact ((decoder.restores_write (valid_toTagged change)).bind sides).congr (and_iff_left trivial)

end

/-! ### Changes of plain JSON -/

/-- Every field of both records has the property. -/
def EachField (change : Change) (property : Value → Prop) : Prop :=
  (∀ entry ∈ change.after, property entry.2) ∧
    ∀ record, change.before = some record → ∀ entry ∈ record, property entry.2

section
variable {change : Change} {before : Option Json} {after : Json}

theorem EachField.congr {p q : Value → Prop} (h : change.EachField fun v => p v ↔ q v) :
    change.EachField p ↔ change.EachField q :=
  and_congr (forall₂_congr h.1) (forall₂_congr fun record some => forall₂_congr (h.2 record some))

/-- A change whose fields survive is restored if the numbers are kept. -/
theorem restored_eq {numbers : Json.NumberReader} (well : change.WellFormed)
    (storable : change.EachField Value.Storable) (keeps : change.toTagged.EachNumber numbers.Keeps) :
    change.restored numbers = change := by
  obtain ⟨before, after⟩ := change
  obtain ⟨keepsBefore, keepsAfter⟩ := eachNumber_toTagged.mp keeps
  have sameAfter := Value.restoredEntries_eq after well.after.2 storable.1 keepsAfter
  have sameBefore : before.map (Value.restoredEntries numbers) = before := by
    cases before with
    | none => rfl
    | some record =>
      exact congrArg some (Value.restoredEntries_eq record (well.before record rfl).2 (storable.2 record rfl)
        (keepsBefore record rfl))
  rw [restored, sameAfter, sameBefore]

/-- The change that comes back has the form of the one that was stored exactly if all its fields survive and
all numbers are kept. -/
theorem same_restored_iff {numbers : Json.NumberReader} (well : change.WellFormed)
    (reads : change.toTagged.EachNumber numbers.Reads) : change.same (change.restored numbers) = true ↔
      change.EachField Value.Storable ∧ change.toTagged.EachNumber numbers.Keeps := by
  obtain ⟨before, after⟩ := change
  obtain ⟨readsBefore, readsAfter⟩ := eachNumber_toTagged.mp reads
  have sameAfter := Value.sameEntries_restored_iff after well.after.2 readsAfter
  rw [same, Bool.and_eq_true, EachField, eachNumber_toTagged, and_comm (b := (sideToTagged _).EachNumber _),
    and_and_and_comm]
  refine and_congr sameAfter ?_
  cases before with
  | none => exact iff_of_true rfl ⟨nofun, nofun⟩
  | some record =>
    have sameBefore := Value.sameEntries_restored_iff record (well.before record rfl).2 (readsBefore record rfl)
    refine sameBefore.trans (and_congr ?_ ?_)
    · exact ⟨fun each _ same => by cases same; exact each, fun each => each record rfl⟩
    · exact ⟨fun each _ same => by cases same; exact each, fun each => each record rfl⟩

theorem ofPlain_of_recordOfPlain {side : String} {j : Json} {record : Record}
    (h : recordOfPlain side j = .ok record) : Value.ofPlain j = .map record := by
  unfold recordOfPlain at h
  split at h
  · cases h
    assumption
  · cases h

theorem some_of_nonNull {given : Option Json} {j : Json} (h : given.bind Json.nonNull? = some j) :
    given = some j := by
  obtain ⟨j', rfl, same⟩ := Option.bind_eq_some_iff.mp h
  cases j' <;> cases same <;> rfl

/-- Where the records of a change come from. -/
theorem sides_of_ofPlain (built : ofPlain before after = .ok change) : Value.ofPlain after = .map change.after ∧
    ∀ record, change.before = some record → ∃ j, before = some j ∧ Value.ofPlain j = .map record := by
  unfold ofPlain at built
  cases left : (before.bind Json.nonNull?).mapM (recordOfPlain "before") with
  | error => rw [left] at built; cases built
  | ok records =>
    cases right : recordOfPlain "after" after with
    | error => rw [left, right] at built; cases built
    | ok fields =>
      rw [left, right] at built
      cases built
      refine ⟨ofPlain_of_recordOfPlain right, fun record same => ?_⟩
      cases same
      cases given : before.bind Json.nonNull? with
      | none => rw [given] at left; cases left
      | some j =>
        cases read : recordOfPlain "before" j with
        | error => rw [given, Option.mapM_some, read] at left; cases left
        | ok fields =>
          rw [given, Option.mapM_some, read] at left
          cases left
          exact ⟨j, some_of_nonNull given, ofPlain_of_recordOfPlain read⟩

/-- **When a change is restored.** What is stored of a change from plain JSON is read as a change exactly if the
decoder accepts it: if it reads all numbers, and allows as many open arrays and objects as there are. The change
that is read is the same one exactly if no map in the fields looks like a tagged value and the decoder keeps all
numbers, and then no evaluation tells them apart. -/
theorem restored_same_iff (built : ofPlain before after = .ok change)
    (validBefore : ∀ j, before = some j → j.Valid) (validAfter : after.Valid) (decoder : Json.Decoder) :
    ((change.restored? decoder).isSome = true ↔ decoder.Accepts change.toTagged) ∧
    ∀ restored, change.restored? decoder = some restored →
      (change.same restored = true ↔
        change.EachField Value.TagFree ∧ change.toTagged.EachNumber decoder.numbers.Keeps) ∧
      (change.same restored = true →
        restored = change ∧ ∀ source guard, evaluate source restored guard = evaluate source change guard) := by
  obtain ⟨fromAfter, fromBefore⟩ := sides_of_ofPlain built
  have well : change.WellFormed := by
    refine ⟨fromAfter ▸ Value.wellFormed_ofPlain after, fun record some => ?_⟩
    obtain ⟨j, _, read⟩ := fromBefore record some
    exact read ▸ Value.wellFormed_ofPlain j
  have storable : change.EachField Value.Storable ↔ change.EachField Value.TagFree := by
    refine EachField.congr ⟨fun entry mem => ?_, fun record some entry mem => ?_⟩
    · refine Value.storable_iff_tagFree fun part within => ?_
      exact Value.isPlain_of_within after validAfter part (fromAfter ▸ .entry mem within)
    · obtain ⟨j, given, read⟩ := fromBefore record some
      refine Value.storable_iff_tagFree fun part within => ?_
      exact Value.isPlain_of_within j (validBefore j given) part (read ▸ .entry mem within)
  have comesBack := restores well decoder
  refine ⟨comesBack.isSome_iff, fun restored found => ?_⟩
  obtain ⟨accepts, rfl⟩ := (comesBack restored).mp found
  have border := same_restored_iff well accepts.numbers
  rw [← storable]
  refine ⟨border, fun same => ?_⟩
  obtain ⟨survives, keeps⟩ := border.mp same
  have asIs := restored_eq well survives keeps
  exact ⟨asIs, fun _ _ => by rw [asIs]⟩

end

/-- A number under a tag and a second entry beside one: neither looks like a decimal. Three objects are open at
once, and a decoder that allows two refuses the text. -/
theorem restored_same_iff_wider :
    let before : Json := .object [("fee", .object [("$decimal", .number (.integer 5))])]
    let after : Json := .object [("fee", .object [("$decimal", .string "5"), ("unit", .string "EUR")])]
    let change : Change := ⟨some [("fee", .map [("$decimal", .number (.ofInt 5))])],
      [("fee", .map [("$decimal", .string "5"), ("unit", .string "EUR")])]⟩
    ofPlain (some before) after = .ok change ∧
      change.restored? ⟨.nearest, some 127⟩ = some change ∧ change.restored? ⟨.nearest, some 2⟩ = none := by
  intro before after change
  have built : ofPlain (some before) after = .ok change := rfl
  have validBefore : ∀ j, some before = some j → j.Valid := by
    rintro _ ⟨⟩
    simp [before, Json.Valid, Json.EachNumber, Json.membersEachNumber, Json.Number.Valid]
  have validAfter : after.Valid := by simp [after, Json.Valid, Json.EachNumber, Json.membersEachNumber]
  have free : change.EachField Value.TagFree := by
    refine ⟨fun entry mem => ?_, ?_⟩
    · cases List.mem_singleton.mp mem
      intro entries within
      cases within with
      | self => simp [Value.LooksTagged]
      | entry mem within =>
        simp only [List.mem_cons, List.not_mem_nil, or_false] at mem
        rcases mem with ⟨⟨⟩⟩ | ⟨⟨⟩⟩ <;> cases within
    · rintro _ ⟨⟩ entry mem
      cases List.mem_singleton.mp mem
      intro entries within
      cases within with
      | self => simp [Value.LooksTagged]
      | entry mem within =>
        cases List.mem_singleton.mp mem
        cases within
  have depth : change.toTagged.depth = 3 := by
    simp [change, toTagged, Value.entriesToTagged, Value.toTagged, Json.depth, Json.membersDepth,
      Json.depth_binary64]
  have keeps : change.toTagged.EachNumber Json.NumberReader.nearest.Keeps :=
    (valid_toTagged change).mono fun _ => Json.keeps_nearest
  have wide := restored_same_iff built validBefore validAfter ⟨.nearest, some 127⟩
  have narrow := restored_same_iff built validBefore validAfter ⟨.nearest, some 2⟩
  have accepted : Json.Decoder.Accepts ⟨.nearest, some 127⟩ change.toTagged := by
    refine ⟨keeps.mono fun _ => Json.NumberReader.Keeps.reads, ?_⟩
    rintro _ ⟨⟩
    exact depth.trans_le (by decide)
  obtain ⟨restored, found⟩ := Option.isSome_iff_exists.mp (wide.1.mpr accepted)
  obtain ⟨same, asIs⟩ := wide.2 restored found
  refine ⟨built, ?_, ?_⟩
  · rw [found, (asIs (same.mpr ⟨free, keeps⟩)).1]
  · rw [← Option.not_isSome_iff_eq_none, narrow.1]
    exact fun accepts => absurd (depth ▸ accepts.depth 2 rfl) (by decide)

/-- A map that looks like a decimal: it holds, and the zero it comes back as does not. There is no number in it,
and three objects are open at once, so this is so for every decoder that allows those. -/
theorem restored_differs :
    let after : Json := .object [("x", .object [("$decimal", .string "0")])]
    ∃ change restored, ofPlain none after = .ok change ∧
      change.toTagged.write = "\x7b\"before\":null,\"after\":\x7b\"x\":\x7b\"$decimal\":\"0\"\x7d\x7d\x7d" ∧
      (∀ numbers, change.restored? ⟨numbers, some 127⟩ = some restored) ∧ change.same restored = false ∧
      evaluate "x" change none = ⟨.ok true, []⟩ ∧ evaluate "x" restored none = ⟨.ok false, []⟩ := by
  intro after
  let change : Change := ⟨none, [("x", .map [("$decimal", .string "0")])]⟩
  let restored : Change := ⟨none, [("x", .decimal ⟨"0", by decide⟩)]⟩
  refine ⟨change, restored, ?_, ?_, ?_, ?_, ?_, ?_⟩
  · cbv
  · cbv
  · intro numbers
    cbv
  · cbv
  · cbv
  · cbv

end Change

end RecordRules
