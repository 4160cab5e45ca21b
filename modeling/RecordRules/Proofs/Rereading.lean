/-
# What is read, stored and read again

The border of what the tagged notation keeps. Where numbers are read as the nearest ones, a value
comes back from its text exactly if no number in it is NaN or infinite, no date has a year outside
0 to 9999, and no map looks like a tagged value (`Value.tagged_roundTrip_iff`): the dates that there
are, read from timestamps or counted in milliseconds, are given back by their texts up to that year.
A limit on nesting refuses what is deeper, and changes nothing else.

Whatever is read from a text under the tagged notation has finite numbers alone, as there are
no others in JSON, no map that looks like a tagged value, as it would have been read as the
one it looks like (`Value.decoded_of_within`), and it is stored no deeper than it was found. So of
what has once been read, two things can get lost when it is stored and read again
(`Change.reread_same_iff`): a date of the last year of the calendar or the first that its offset
moved over the border, and a number whose text the decoder does not read as that number.

Key definitions: `Value.Lossless`, `Value.Decoded`, `Value.YearsFit`. Key theorems:
`Value.tagged_roundTrip_iff`, `Value.decoded_of_within`, `Value.depth_toTagged_ofTagged`,
`Change.reread_same_iff`.
-/
import RecordRules.Proofs.JsonDecoded
import RecordRules.Proofs.Persistence
import RecordRules.Proofs.Timestamps

namespace RecordRules

namespace Value

/-! ### What the notation keeps -/

/-- The value as such, whatever is in it, is one that the tagged notation keeps. -/
def Lossless : Value → Prop
  | .number x => x.isFinite = true
  | .date t => t.HasFourDigitYear
  | .map entries => ¬ LooksTagged entries
  | _ => True

theorem survives_iff_lossless {part : Value} (given : ∀ t, part = .date t → t.Given) :
    part.Survives ↔ part.Lossless := by
  cases part with
  | date t => exact (given t rfl).readTimestamp?_text_iff
  | _ => rfl

theorem storable_iff_lossless {v : Value} (given : ∀ t, (date t).Within v → t.Given) :
    v.Storable ↔ ∀ part : Value, part.Within v → part.Lossless := by
  refine forall₂_congr fun part within => survives_iff_lossless fun t same => given t ?_
  rw [← same]
  exact within

/-- **The border of the tagged notation.** Where numbers are read as the nearest ones, the text of a value is read
as a value again exactly if the limit reaches to its depth. It is the same one exactly if, at every depth, no
number is NaN or infinite, no date has a year outside 0 to 9999, and no map is a single entry that looks like a
tagged decimal or date. -/
theorem tagged_roundTrip_iff {v : Value} (well : v.WellFormed) (given : ∀ t, (date t).Within v → t.Given)
    (limit : Option Nat) :
    ((v.restored? ⟨.nearest, limit⟩).isSome = true ↔ ∀ most ∈ limit, v.toTagged.depth ≤ most) ∧
    ∀ back, v.restored? ⟨.nearest, limit⟩ = some back →
      (v.same back = true ↔ ∀ part : Value, part.Within v → part.Lossless) ∧
      ((∀ part : Value, part.Within v → part.Lossless) → back = v) := by
  have storable := storable_iff_lossless given
  have keeps : v.toTagged.EachNumber Json.NumberReader.nearest.Keeps :=
    (valid_toTagged v).mono fun _ => Json.keeps_nearest
  have reads : v.toTagged.EachNumber Json.NumberReader.nearest.Reads :=
    keeps.mono fun _ => Json.NumberReader.Keeps.reads
  have comesBack := restores well ⟨.nearest, limit⟩
  refine ⟨comesBack.isSome_iff.trans ⟨fun accepts => accepts.depth, fun room => ⟨reads, room⟩⟩,
    fun back found => ?_⟩
  rw [comesBack.eq found]
  refine ⟨?_, fun lossless => restored_eq v well (storable.mpr lossless) keeps⟩
  rw [same_restored_iff v well reads, storable]
  exact and_iff_left keeps

/-- A date under the tag of dates, and a text under the tag of decimals that is none: both come back, where two
objects may be open at once. -/
theorem tagged_roundTrip_iff_nested :
    let v : Value := .map [("$date", .date (.ofMillis 951782400250)), ("fee", .map [("$decimal", .string "5e1")])]
    v.toTagged.write =
      "\x7b\"$date\":\x7b\"$date\":\"2000-02-29T00:00:00.250Z\"\x7d,\"fee\":\x7b\"$decimal\":\"5e1\"\x7d\x7d" ∧
    v.restored? ⟨.nearest, some 127⟩ = some v ∧ v.same v = true ∧ v.restored? ⟨.nearest, some 1⟩ = none := by
  intro v
  have well : v.WellFormed := ⟨by decide, trivial, ⟨by decide, trivial, trivial⟩, trivial⟩
  have noDecimal : Decimal.ofString? "5e1" = none := by decide
  have year : Instant.HasFourDigitYear (.ofMillis 951782400250) := by decide
  have parts {p : Value → Prop} (whole : p v) (date : p (.date (.ofMillis 951782400250)))
      (fee : p (.map [("$decimal", .string "5e1")])) (text : p (.string "5e1")) (part : Value)
      (within : part.Within v) : p part := by
    have inFee := forall_within_map_iff.mpr
      ⟨fee, List.forall_mem_singleton.mpr ((forall_within_scalar_iff rfl rfl).mpr text)⟩
    have inDate := (forall_within_scalar_iff rfl rfl).mpr date
    exact forall_within_map_iff.mpr
      ⟨whole, List.forall_mem_cons.mpr ⟨inDate, List.forall_mem_singleton.mpr inFee⟩⟩ part within
  have given (t : Instant) (within : (date t).Within v) : t.Given :=
    parts (p := fun part => ∀ t, part = .date t → t.Given) nofun (fun _ same => by cases same; exact .millis _)
      nofun nofun _ within t rfl
  have lossless : ∀ part : Value, part.Within v → part.Lossless := by
    refine parts ?_ year ?_ trivial
    · simp [v, Lossless, LooksTagged]
    · simp [Lossless, LooksTagged, decimalTag, dateTag, noDecimal]
  have depth : v.toTagged.depth = 2 := rfl
  have wide := tagged_roundTrip_iff well given (some 127)
  have narrow := tagged_roundTrip_iff well given (some 1)
  have room : ∀ most ∈ some 127, v.toTagged.depth ≤ most := by
    rintro _ ⟨⟩
    exact depth.trans_le (by decide)
  obtain ⟨back, found⟩ := Option.isSome_iff_exists.mp (wide.1.mpr room)
  obtain ⟨same, restored⟩ := wide.2 back found
  have asIs := restored lossless
  subst asIs
  refine ⟨by cbv, found, same.mpr lossless, ?_⟩
  rw [← Option.not_isSome_iff_eq_none, narrow.1]
  exact fun enough => absurd (depth ▸ enough 1 rfl) (by decide)

/-! ### What is read -/

/-- The value as such, whatever is in it, is one that can be read from JSON under tags. -/
def Decoded : Value → Prop
  | .number x => x.isFinite = true
  | .date t => t.Given
  | .map entries => ¬ LooksTagged entries
  | _ => True

/-- The years of all dates in the value have four digits. -/
def YearsFit (value : Value) : Prop := ∀ t, (date t).Within value → t.HasFourDigitYear

theorem storable_iff_yearsFit {v : Value} (decoded : ∀ part : Value, part.Within v → part.Decoded) :
    v.Storable ↔ v.YearsFit := by
  rw [storable_iff_lossless fun t within => decoded (.date t) within]
  refine ⟨fun lossless t within => lossless (.date t) within, fun fit part within => ?_⟩
  have read := decoded part within
  cases part with
  | date t => exact fit t within
  | number | map => exact read
  | _ => trivial

section
variable {members : List (String × Json)} {v : Value}

/-- A tag stands for a decimal or for a date that was read. -/
theorem decoded_of_scalarOfTag? (h : scalarOfTag? members = some v) :
    (∃ d, v = .decimal d) ∨ ∃ t, v = .date t ∧ t.Given := by
  unfold scalarOfTag? at h
  split at h
  · split_ifs at h
    · obtain ⟨d, _, rfl⟩ := Option.map_eq_some_iff.mp h
      exact .inl ⟨d, rfl⟩
    · obtain ⟨t, read, rfl⟩ := Option.map_eq_some_iff.mp h
      exact .inr ⟨t, rfl, .timestamp read⟩
  · cases h

/-- Only a string is read as a string. -/
theorem eq_string_of_ofTagged {j : Json} {s : String} (h : ofTagged j = .string s) : j = .string s := by
  cases j with
  | string => cases h; rfl
  | object members =>
    rw [ofTagged] at h
    cases scalar : scalarOfTag? members with
    | none => rw [scalar] at h; cases h
    | some v =>
      rw [scalar, Option.getD_some] at h
      subst h
      obtain ⟨_, ⟨⟩⟩ | ⟨_, ⟨⟩, _⟩ := decoded_of_scalarOfTag? scalar
  | _ => cases h

theorem entriesOfTagged_eq_singleton {name s : String} (h : entriesOfTagged members = [(name, .string s)]) :
    members = [(name, .string s)] := by
  have length := congrArg (fun entries => (entries.map Prod.fst).length) h
  simp only [entriesOfTagged_names, List.length_map] at length
  obtain ⟨⟨other, j⟩, rfl⟩ := List.length_eq_one_iff.mp length
  simp only [entriesOfTagged, List.cons.injEq, Prod.mk.injEq, and_true] at h
  rw [h.1, eq_string_of_ofTagged h.2]

/-- What is read as a map does not look like a tagged value. -/
theorem not_looksTagged_of_ofTagged (plain : scalarOfTag? members = none) :
    ¬ LooksTagged (entriesOfTagged members) := by
  rintro ⟨s, ⟨tagged, reads⟩ | ⟨tagged, reads⟩⟩
  · rw [entriesOfTagged_eq_singleton tagged, scalarOfTag?_string] at plain
    exact plain ⟨s, .inl ⟨rfl, reads⟩⟩
  · rw [entriesOfTagged_eq_singleton tagged, scalarOfTag?_string] at plain
    exact plain ⟨s, .inr ⟨rfl, reads⟩⟩

end

mutual

theorem wellFormed_ofTagged : ∀ j : Json, (ofTagged j).WellFormed
  | .null | .bool _ | .number _ | .string _ => trivial
  | .array items => itemsWellFormed_iff.mpr (wellFormed_itemsOfTagged items)
  | .object members => by
    rw [ofTagged]
    cases scalar : scalarOfTag? members with
    | none =>
      exact ⟨Keyed.ascending_ofList _, entriesWellFormed_iff.mpr fun entry mem =>
        wellFormed_entriesOfTagged members entry (Keyed.mem_of_mem_ofList mem)⟩
    | some v => obtain ⟨_, rfl⟩ | ⟨_, rfl, _⟩ := decoded_of_scalarOfTag? scalar <;> trivial

theorem wellFormed_itemsOfTagged : ∀ (items : List Json), ∀ item ∈ itemsOfTagged items, item.WellFormed
  | [] => nofun
  | item :: rest => List.forall_mem_cons.mpr ⟨wellFormed_ofTagged item, wellFormed_itemsOfTagged rest⟩

theorem wellFormed_entriesOfTagged : ∀ (members : List (String × Json)), ∀ entry ∈ entriesOfTagged members,
    entry.2.WellFormed
  | [] => nofun
  | (_, value) :: rest => List.forall_mem_cons.mpr ⟨wellFormed_ofTagged value, wellFormed_entriesOfTagged rest⟩

end

mutual

/-- **What is read under tags.** At every depth, it has finite numbers, dates that were read, and no map that
looks like a tagged value. -/
theorem decoded_of_within : ∀ j : Json, j.Readable → ∀ part : Value, part.Within (ofTagged j) → part.Decoded
  | .null, _ | .bool _, _ | .string _, _ => (forall_within_scalar_iff rfl rfl).mpr trivial
  | .number _, readable => (forall_within_scalar_iff rfl rfl).mpr (Json.isFinite_toBinary64 readable.valid)
  | .array items, readable =>
    forall_within_array_iff.mpr ⟨trivial, decoded_of_within_items items (Json.readable_array_iff.mp readable)⟩
  | .object members, readable => by
    obtain ⟨ascending, each⟩ := Json.readable_object_iff.mp readable
    rw [ofTagged]
    cases scalar : scalarOfTag? members with
    | none =>
      rw [Option.getD_none, ofList_entriesOfTagged ascending]
      exact forall_within_map_iff.mpr
        ⟨not_looksTagged_of_ofTagged scalar, decoded_of_within_entries members each⟩
    | some v =>
      rw [Option.getD_some]
      obtain ⟨_, rfl⟩ | ⟨_, rfl, given⟩ := decoded_of_scalarOfTag? scalar
      · exact (forall_within_scalar_iff rfl rfl).mpr trivial
      · exact (forall_within_scalar_iff rfl rfl).mpr given

theorem decoded_of_within_items : ∀ items : List Json, (∀ item ∈ items, item.Readable) →
    ∀ item ∈ itemsOfTagged items, ∀ part : Value, part.Within item → part.Decoded
  | [], _ => nofun
  | item :: rest, readable => by
    obtain ⟨first, more⟩ := List.forall_mem_cons.mp readable
    exact List.forall_mem_cons.mpr ⟨decoded_of_within item first, decoded_of_within_items rest more⟩

theorem decoded_of_within_entries : ∀ members : List (String × Json), (∀ member ∈ members, member.2.Readable) →
    ∀ entry ∈ entriesOfTagged members, ∀ part : Value, part.Within entry.2 → part.Decoded
  | [], _ => nofun
  | (_, value) :: rest, readable => by
    obtain ⟨first, more⟩ := List.forall_mem_cons.mp readable
    exact List.forall_mem_cons.mpr ⟨decoded_of_within value first, decoded_of_within_entries rest more⟩

end

mutual

/-- Reading under tags and writing does not make a value deeper. -/
theorem depth_toTagged_ofTagged : ∀ j : Json, j.Readable → (ofTagged j).toTagged.depth ≤ j.depth
  | .null, _ | .bool _, _ | .string _, _ => Nat.zero_le _
  | .number n, _ => (Json.depth_binary64 n.toBinary64).le
  | .array items, readable =>
    Nat.add_le_add_right (depth_itemsToTagged items (Json.readable_array_iff.mp readable)) 1
  | .object members, readable => by
    obtain ⟨ascending, each⟩ := Json.readable_object_iff.mp readable
    rw [ofTagged]
    cases scalar : scalarOfTag? members with
    | none =>
      rw [Option.getD_none, ofList_entriesOfTagged ascending]
      exact Nat.add_le_add_right (depth_entriesToTagged members each) 1
    | some v =>
      rw [Option.getD_some]
      obtain ⟨_, rfl⟩ | ⟨_, rfl, _⟩ := decoded_of_scalarOfTag? scalar
      · exact Nat.le_add_left 1 _
      · exact Nat.le_add_left 1 _

theorem depth_itemsToTagged : ∀ items : List Json, (∀ item ∈ items, item.Readable) →
    Json.itemsDepth (itemsToTagged (itemsOfTagged items)) ≤ Json.itemsDepth items
  | [], _ => le_rfl
  | item :: rest, readable => by
    obtain ⟨first, more⟩ := List.forall_mem_cons.mp readable
    exact max_le_max (depth_toTagged_ofTagged item first) (depth_itemsToTagged rest more)

theorem depth_entriesToTagged : ∀ members : List (String × Json), (∀ member ∈ members, member.2.Readable) →
    Json.membersDepth (entriesToTagged (entriesOfTagged members)) ≤ Json.membersDepth members
  | [], _ => le_rfl
  | (_, value) :: rest, readable => by
    obtain ⟨first, more⟩ := List.forall_mem_cons.mp readable
    exact max_le_max (depth_toTagged_ofTagged value first) (depth_entriesToTagged rest more)

end

end Value

/-! ### Changes that were read -/

/-- The fields of a record of fixed shape are members or items. -/
theorem Json.Readable.fields? {j : Json} {names : List String} {closed : Bool} {fields : List (Option Json)}
    (readable : j.Readable) (h : j.fields? names closed = some fields) :
    ∀ field, some field ∈ fields → field.Readable ∧ field.depth < j.depth := by
  intro field mem
  cases j with
  | object members =>
    rw [Json.fields?] at h
    split at h <;> cases h
    obtain ⟨name, _, found⟩ := List.mem_map.mp mem
    have member := Keyed.mem_of_lookup found
    exact ⟨(Json.readable_object_iff.mp readable).2 _ member, Nat.lt_succ_of_le (depth_le_membersDepth member)⟩
  | array items =>
    rw [Json.fields?] at h
    split at h <;> cases h
    rcases List.mem_append.mp mem with mem | mem
    · obtain ⟨item, listed, same⟩ := List.mem_map.mp mem
      cases same
      exact ⟨Json.readable_array_iff.mp readable _ listed, Nat.lt_succ_of_le (depth_le_itemsDepth listed)⟩
    · cases List.eq_of_mem_replicate mem
  | _ => cases h

namespace Change

variable {change : Change}

/-- The record was read under tags from an object as it is read from a text, less deep than that. -/
def ReadWithin (depth : Nat) (record : Record) : Prop :=
  ∃ members, (Json.object members).Readable ∧ (Json.object members).depth < depth ∧
    record = Value.entriesOfTagged members

section
variable {depth : Nat} {record : Record}

theorem readWithin_of_recordOfTagged? {j : Json} (field : j.Readable ∧ j.depth < depth)
    (h : recordOfTagged? j = some record) : ReadWithin depth record := by
  obtain ⟨readable, inside⟩ := field
  cases j with
  | object members =>
    cases h
    have ascending := (Json.readable_object_iff.mp readable).1
    exact ⟨members, readable, inside, Value.ofList_entriesOfTagged ascending⟩
  | _ => cases h

theorem ReadWithin.wellFormed (h : ReadWithin depth record) : (Value.map record).WellFormed := by
  obtain ⟨members, readable, _, rfl⟩ := h
  refine ⟨?_, Value.entriesWellFormed_iff.mpr (Value.wellFormed_entriesOfTagged members)⟩
  rw [Keyed.Ascending, Value.entriesOfTagged_names]
  exact (Json.readable_object_iff.mp readable).1

theorem ReadWithin.storable_iff (h : ReadWithin depth record) :
    ∀ entry ∈ record, entry.2.Storable ↔ entry.2.YearsFit := by
  obtain ⟨members, readable, _, rfl⟩ := h
  intro entry mem
  have each := (Json.readable_object_iff.mp readable).2
  exact Value.storable_iff_yearsFit (Value.decoded_of_within_entries members each entry mem)

/-- What is written of the record is no deeper than what it was read from. -/
theorem ReadWithin.depth_lt (h : ReadWithin depth record) : (sideToTagged record).depth < depth := by
  obtain ⟨members, readable, inside, rfl⟩ := h
  have each := (Json.readable_object_iff.mp readable).2
  exact (Nat.add_le_add_right (Value.depth_entriesToTagged members each) 1).trans_lt inside

end

/-- Where the records of a change come from that was read. -/
theorem sides_of_ofTagged? {j : Json} (readable : j.Readable) (read : ofTagged? j = some change) :
    ReadWithin j.depth change.after ∧
      ∀ record, change.before = some record → ReadWithin j.depth record := by
  obtain ⟨fields, shape, read⟩ := Option.bind_eq_some_iff.mp read
  have field := readable.fields? shape
  match fields, read with
  | [before, after], read =>
    obtain ⟨records, left, read⟩ := Option.bind_eq_some_iff.mp read
    obtain ⟨right, given, read⟩ := Option.bind_eq_some_iff.mp read
    obtain ⟨record, recorded, same⟩ := Option.bind_eq_some_iff.mp read
    cases same
    refine ⟨readWithin_of_recordOfTagged? (field right (by simp [given])) recorded, fun record some => ?_⟩
    cases some
    cases nonNull : before.bind Json.nonNull? with
    | none => rw [nonNull] at left; cases left
    | some j =>
      rw [nonNull, Option.mapM_some] at left
      obtain ⟨_, recorded, same⟩ := Option.map_eq_some_iff.mp left
      cases same
      exact readWithin_of_recordOfTagged? (field j (by simp [some_of_nonNull nonNull])) recorded

/-- A stored change is one deeper than its sides. -/
theorem depth_toTagged_le {depth : Nat} (after : (sideToTagged change.after).depth < depth)
    (before : ∀ record, change.before = some record → (sideToTagged record).depth < depth) :
    change.toTagged.depth ≤ depth := by
  obtain ⟨left, right⟩ := change
  refine Nat.succ_le_of_lt (max_lt ?_ (max_lt after (Nat.zero_lt_of_lt after)))
  cases left with
  | none => exact Nat.zero_lt_of_lt after
  | some record => exact before record rfl

/-- **What has been read once.** A change that a decoder has read from a text is stored as a text that the decoder
reads as a change again, unless it does not read a number in it. It is the same one exactly if the years of all
dates in it have four digits and the decoder keeps all numbers. -/
theorem reread_same_iff (decoder : Json.Decoder) {text : String}
    (read : (decoder.read? text).bind ofTagged? = some change) :
    ((change.restored? decoder).isSome = true ↔ change.toTagged.EachNumber decoder.numbers.Reads) ∧
    ∀ again, change.restored? decoder = some again →
      (change.same again = true ↔
        change.EachField Value.YearsFit ∧ change.toTagged.EachNumber decoder.numbers.Keeps) ∧
      (change.same again = true → again = change) := by
  obtain ⟨j, parsed, read⟩ := Option.bind_eq_some_iff.mp read
  have readAt := Json.Decoder.readAt_of_read? parsed
  obtain ⟨after, before⟩ := sides_of_ofTagged? readAt.toReadable read
  have well : change.WellFormed := ⟨after.wellFormed, fun record some => (before record some).wellFormed⟩
  have storable : change.EachField Value.Storable ↔ change.EachField Value.YearsFit :=
    EachField.congr ⟨after.storable_iff, fun record some => (before record some).storable_iff⟩
  have shallow : change.toTagged.depth ≤ j.depth :=
    depth_toTagged_le after.depth_lt fun record some => (before record some).depth_lt
  have room : ∀ most ∈ decoder.limit, change.toTagged.depth ≤ most :=
    fun most given => shallow.trans (Json.hasRoom_start.mp readAt.room most given)
  have comesBack := restores well decoder
  refine ⟨comesBack.isSome_iff.trans ⟨fun accepts => accepts.numbers, fun reads => ⟨reads, room⟩⟩,
    fun again found => ?_⟩
  obtain ⟨accepts, rfl⟩ := (comesBack again).mp found
  have border := same_restored_iff well accepts.numbers
  rw [← storable]
  refine ⟨border, fun same => ?_⟩
  obtain ⟨survives, keeps⟩ := border.mp same
  exact restored_eq well survives keeps

set_option maxRecDepth 4000 in
/-- A date that its offset leaves in the last year, and a text under a tag that is no decimal. -/
theorem reread_same_iff_lastYear :
    let decoder : Json.Decoder := ⟨.nearest, some 127⟩
    let text :=
      "\x7b\"after\":\x7b\"d\":\x7b\"$date\":\"9999-12-31T23:30:00-00:29\"\x7d,\"n\":\x7b\"$decimal\":\"x\"\x7d\x7d\x7d"
    let change : Change :=
      ⟨none, [("d", .date ⟨253402300740, 0, by decide⟩), ("n", .map [("$decimal", .string "x")])]⟩
    (decoder.read? text).bind ofTagged? = some change ∧ change.restored? decoder = some change := by
  intro decoder text change
  have read : (decoder.read? text).bind ofTagged? = some change := by cbv
  have fit : change.EachField Value.YearsFit := by
    refine ⟨fun entry mem => ?_, fun record some => by cases some⟩
    simp only [change, List.mem_cons, List.not_mem_nil, or_false] at mem
    rcases mem with rfl | rfl
    · rintro t ⟨⟩
      decide
    · rintro t within
      cases within with
      | entry mem within =>
        cases List.mem_singleton.mp mem
        cases within
  have noNumbers (p : Json.Number → Prop) : change.toTagged.EachNumber p := by
    simp [change, toTagged, Value.entriesToTagged, Value.toTagged, Json.EachNumber, Json.membersEachNumber]
  obtain ⟨comesBack, asIs⟩ := reread_same_iff decoder read
  obtain ⟨again, found⟩ := Option.isSome_iff_exists.mp (comesBack.mpr (noNumbers _))
  obtain ⟨same, restored⟩ := asIs again found
  rw [restored (same.mpr ⟨fit, noNumbers _⟩)] at found
  exact ⟨read, found⟩

set_option maxRecDepth 4000 in
/-- A date that its offset moves before the year 0. Its text begins with a sign, which no timestamp does, so it
comes back as a map, and a formula that looks into it has another answer. There are no numbers, so this is so for
every reader of numbers. -/
theorem reread_differs :
    let text := "\x7b\"after\":\x7b\"d\":\x7b\"$date\":\"0000-01-01T00:00:00+01:00\"\x7d\x7d\x7d"
    ∃ change again, change.toTagged.write =
        "\x7b\"before\":null,\"after\":\x7b\"d\":\x7b\"$date\":\"-0001-12-31T23:00:00Z\"\x7d\x7d\x7d" ∧
      (∀ numbers, (Json.Decoder.read? ⟨numbers, some 127⟩ text).bind ofTagged? = some change ∧
        change.restored? ⟨numbers, some 127⟩ = some again) ∧
      change.same again = false ∧
      evaluate "get('d.$date') == null" change none = ⟨.ok true, []⟩ ∧
      evaluate "get('d.$date') == null" again none = ⟨.ok false, []⟩ := by
  intro text
  let change : Change := ⟨none, [("d", .date ⟨-62167222800, 0, by decide⟩)]⟩
  let again : Change := ⟨none, [("d", .map [("$date", .string "-0001-12-31T23:00:00Z")])]⟩
  have written : change.toTagged.write =
      "\x7b\"before\":null,\"after\":\x7b\"d\":\x7b\"$date\":\"-0001-12-31T23:00:00Z\"\x7d\x7d\x7d" := by cbv
  refine ⟨change, again, written, fun numbers => ⟨?_, ?_⟩, rfl, by cbv, by cbv⟩
  · cbv
  · rw [restored?, written]
    cbv

end Change
end RecordRules
