/-
# JSON that is read

What a decoder reads has all numbers in range and the members of its objects in order, and it is
no deeper than the limit of the decoder, whatever the text is. Only the scanner makes numbers, by
way of the reader of numbers, which reads none but those that there can be. The machine that reads
lexemes takes nothing up but what the lexemes are and puts it where there is room for it: where
`count` arrays and objects are open, each value that it holds is one that may come there
(`Json.ReadAt`), and a lexeme that closes them leaves one that may come where they were opened.

Key definitions: `Json.Readable`, `Json.ReadAt`, `Reader.Holds`. Key theorems: `Reader.Holds.step?`,
`Reader.Holds.run?`, `Decoder.readAt_of_read?`.
-/
import RecordRules.Proofs.JsonReading

namespace RecordRules.Json

/-! ### Values that are read -/

mutual

/-- The members of every object are in ascending order. -/
def Ordered : Json → Prop
  | .array items => itemsOrdered items
  | .object members => Keyed.Ascending members ∧ membersOrdered members
  | _ => True

def itemsOrdered : List Json → Prop
  | [] => True
  | item :: rest => item.Ordered ∧ itemsOrdered rest

def membersOrdered : List (String × Json) → Prop
  | [] => True
  | (_, value) :: rest => value.Ordered ∧ membersOrdered rest

end

/-- A value as it is read from a text. -/
structure Readable (j : Json) : Prop where
  valid : j.Valid
  ordered : j.Ordered

/-- A value as it is read where so many arrays and objects are open. -/
structure ReadAt (limit : Option Nat) (count : Nat) (j : Json) : Prop extends j.Readable where
  room : hasRoom limit count j.depth = true

section
variable {items : List Json} {members : List (String × Json)} {limit : Option Nat} {count : Nat}

theorem itemsOrdered_iff : itemsOrdered items ↔ ∀ item ∈ items, item.Ordered := by
  induction items with
  | nil => simp [itemsOrdered]
  | cons item rest ih => simp [itemsOrdered, ih]

theorem membersOrdered_iff : membersOrdered members ↔ ∀ member ∈ members, member.2.Ordered := by
  induction members with
  | nil => simp [membersOrdered]
  | cons member rest ih => simp [membersOrdered, ih]

theorem readable_array_iff : (array items).Readable ↔ ∀ item ∈ items, item.Readable := by
  refine ⟨fun h item mem => ⟨?_, ?_⟩, fun h => ⟨?_, ?_⟩⟩
  · exact itemsEachNumber_iff.mp h.valid item mem
  · exact itemsOrdered_iff.mp h.ordered item mem
  · exact itemsEachNumber_iff.mpr fun item mem => (h item mem).valid
  · exact itemsOrdered_iff.mpr fun item mem => (h item mem).ordered

theorem readable_object_iff :
    (object members).Readable ↔ Keyed.Ascending members ∧ ∀ member ∈ members, member.2.Readable := by
  refine ⟨fun h => ⟨h.ordered.1, fun member mem => ⟨?_, ?_⟩⟩, fun ⟨ascending, h⟩ => ⟨?_, ascending, ?_⟩⟩
  · exact membersEachNumber_iff.mp h.valid member mem
  · exact membersOrdered_iff.mp h.ordered.2 member mem
  · exact membersEachNumber_iff.mpr fun member mem => (h member mem).valid
  · exact membersOrdered_iff.mpr fun member mem => (h member mem).ordered

theorem depth_le_itemsDepth {item : Json} (mem : item ∈ items) : item.depth ≤ itemsDepth items := by
  induction items with
  | nil => cases mem
  | cons first rest ih =>
    rcases List.mem_cons.mp mem with rfl | mem
    · exact le_max_left _ _
    · exact le_max_of_le_right (ih mem)

theorem depth_le_membersDepth {member : String × Json} (mem : member ∈ members) :
    member.2.depth ≤ membersDepth members := by
  induction members with
  | nil => cases mem
  | cons first rest ih =>
    rcases List.mem_cons.mp mem with rfl | mem
    · exact le_max_left _ _
    · exact le_max_of_le_right (ih mem)

theorem hasRoom_items (h : ∀ item ∈ items, hasRoom limit count item.depth = true) :
    hasRoom limit count (itemsDepth items) = true := by
  induction items with
  | nil => exact hasRoom_zero limit count
  | cons first rest ih =>
    obtain ⟨here, there⟩ := List.forall_mem_cons.mp h
    rw [itemsDepth, hasRoom_max, here, ih there, Bool.and_self]

theorem hasRoom_members (h : ∀ member ∈ members, hasRoom limit count member.2.depth = true) :
    hasRoom limit count (membersDepth members) = true := by
  induction members with
  | nil => exact hasRoom_zero limit count
  | cons first rest ih =>
    obtain ⟨here, there⟩ := List.forall_mem_cons.mp h
    rw [membersDepth, hasRoom_max, here, ih there, Bool.and_self]

end

/-! ### Lexemes -/

section
variable {numbers : NumberReader}

theorem Lexeme.valid_of_first? {c : Char} {rest : List Char} {l : Lexeme} {used : Nat}
    (h : first? numbers c rest = some (l, used)) : l.Valid := by
  cases l with
  | number n =>
    unfold first? at h
    split at h
    case h_11 =>
      obtain ⟨_, read, same⟩ := Option.map_eq_some_iff.mp h
      cases same
      exact numbers.valid read
    case h_7 =>
      obtain ⟨_, _, same⟩ := Option.map_eq_some_iff.mp h
      cases same
    case h_8 | h_9 | h_10 => split at h <;> cases h
    all_goals cases h
  | _ => trivial

/-- The lexemes of a text are lexemes that there can be. -/
theorem Lexeme.valid_of_scan (cs : List Char) : ∀ ls, scan numbers cs = some ls → ∀ l ∈ ls, l.Valid := by
  fun_induction scan numbers cs with
  | case1 => rintro _ ⟨⟩; exact nofun
  | case2 _ _ _ ih => exact ih
  | case3 => nofun
  | case4 c rest _ l used first ih =>
    intro ls h
    obtain ⟨more, scanned, rfl⟩ := Option.map_eq_some_iff.mp h
    exact List.forall_mem_cons.mpr ⟨valid_of_first? first, ih more scanned⟩

end

/-! ### The machine -/

section
variable (limit : Option Nat)

/-- The members come in order, each as it is read inside of an object that may be opened there. -/
structure HoldsMembers (around : List Open) (members : List (String × Json)) : Prop where
  room : mayOpen limit around = true
  ascending : Keyed.Ascending members
  each : ∀ member ∈ members, member.2.ReadAt limit (around.length + 1)

/-- The items are each as it is read inside of an array that may be opened there. -/
structure HoldsItems (around : List Open) (items : List Json) : Prop where
  room : mayOpen limit around = true
  each : ∀ item ∈ items, item.ReadAt limit (around.length + 1)

/-- What is open may be open, and holds what is read inside of it. -/
def Open.AllHold : List Open → Prop
  | [] => True
  | .array read :: around => HoldsItems limit around read ∧ AllHold around
  | .object members _ :: around => HoldsMembers limit around members ∧ AllHold around

/-- All that the machine holds is as it is read where it stands. -/
def Reader.Holds : Reader → Prop
  | .expectValue around _ => Open.AllHold limit around
  | .expectName around members _ | .expectColon around members _ =>
    HoldsMembers limit around members ∧ Open.AllHold limit around
  | .complete around value => value.ReadAt limit around.length ∧ Open.AllHold limit around

end

section
variable {limit : Option Nat} {around : List Open} {items : List Json} {members : List (String × Json)}

theorem HoldsItems.empty (h : mayOpen limit around = true) : HoldsItems limit around [] := ⟨h, nofun⟩

theorem HoldsItems.cons {value : Json} (h : HoldsItems limit around items)
    (read : value.ReadAt limit (around.length + 1)) : HoldsItems limit around (value :: items) :=
  ⟨h.room, List.forall_mem_cons.mpr ⟨read, h.each⟩⟩

/-- An array closes where it was opened. -/
theorem HoldsItems.close (h : HoldsItems limit around items) :
    (array items.reverse).ReadAt limit around.length := by
  have each : ∀ item ∈ items.reverse, item.ReadAt limit (around.length + 1) :=
    fun item mem => h.each item (List.mem_reverse.mp mem)
  refine ⟨readable_array_iff.mpr fun item mem => (each item mem).toReadable, ?_⟩
  rw [depth, hasRoom_succ, h.room, Bool.true_and]
  exact hasRoom_items fun item mem => (each item mem).room

theorem HoldsMembers.empty (h : mayOpen limit around = true) : HoldsMembers limit around [] :=
  ⟨h, List.Pairwise.nil, nofun⟩

theorem HoldsMembers.insert {name : String} {value : Json} (h : HoldsMembers limit around members)
    (read : value.ReadAt limit (around.length + 1)) :
    HoldsMembers limit around (Keyed.insert name value members) := by
  refine ⟨h.room, Keyed.ascending_insert h.ascending, fun member mem => ?_⟩
  rcases Keyed.mem_insert mem with rfl | mem
  · exact read
  · exact h.each member mem

/-- An object closes where it was opened. -/
theorem HoldsMembers.close (h : HoldsMembers limit around members) :
    (object members).ReadAt limit around.length := by
  refine ⟨readable_object_iff.mpr ⟨h.ascending, fun member mem => (h.each member mem).toReadable⟩, ?_⟩
  rw [depth, hasRoom_succ, h.room, Bool.true_and]
  exact hasRoom_members fun member mem => (h.each member mem).room

theorem readAt_of_scalar? {l : Lexeme} {j : Json} {count : Nat} (valid : l.Valid) (h : l.scalar? = some j) :
    j.ReadAt limit count := by
  cases l with
  | number n => cases h; exact ⟨⟨valid, trivial⟩, hasRoom_zero limit count⟩
  | _ => cases h <;> exact ⟨⟨trivial, trivial⟩, hasRoom_zero limit count⟩

/-- **One lexeme.** The machine takes nothing up but what the lexeme is and what it holds already. -/
theorem Reader.Holds.step? {reader next : Reader} {l : Lexeme} (h : reader.Holds limit) (valid : l.Valid)
    (step : reader.step? limit l = some next) : next.Holds limit := by
  unfold Reader.step? at step
  split at step
  case h_1 =>
    split at step <;> cases step
    rename_i room
    exact ⟨.empty room, h⟩
  case h_2 =>
    split at step <;> cases step
    rename_i room
    exact ⟨.empty room, h⟩
  case h_3 =>
    cases step
    exact ⟨h.1.close, h.2⟩
  case h_4 =>
    obtain ⟨_, scalar, same⟩ := Option.map_eq_some_iff.mp step
    cases same
    exact ⟨readAt_of_scalar? valid scalar, h⟩
  case h_5 => cases step; exact h
  case h_6 => cases step; exact ⟨h.1.close, h.2⟩
  case h_8 => cases step; exact h
  case h_10 => cases step; exact ⟨h.2.1.cons h.1, h.2.2⟩
  case h_11 => cases step; exact ⟨(h.2.1.cons h.1).close, h.2.2⟩
  case h_12 => cases step; exact ⟨h.2.1.insert h.1, h.2.2⟩
  case h_13 => cases step; exact ⟨(h.2.1.insert h.1).close, h.2.2⟩
  all_goals cases step

/-- **All lexemes.** -/
theorem Reader.Holds.run? {ls : List Lexeme} (valid : ∀ l ∈ ls, l.Valid) :
    ∀ {reader last : Reader}, reader.Holds limit → reader.run? limit ls = some last → last.Holds limit := by
  induction ls with
  | nil => rintro reader _ h ⟨⟩; exact h
  | cons l ls ih =>
    obtain ⟨first, more⟩ := List.forall_mem_cons.mp valid
    intro reader last h run
    rw [run?_cons] at run
    obtain ⟨next, step, run⟩ := Option.bind_eq_some_iff.mp run
    exact ih more (h.step? first step) run

end

/-- **What is read can be.** A value that is read from a text has all numbers in range and all members in order,
and is no deeper than the limit. -/
theorem Decoder.readAt_of_read? {decoder : Decoder} {text : String} {j : Json} (h : decoder.read? text = some j) :
    j.ReadAt decoder.limit 0 := by
  obtain ⟨ls, scanned, read⟩ := Option.bind_eq_some_iff.mp h
  unfold ofLexemes? at read
  split at read
  · rename_i run
    cases read
    have start : (Reader.expectValue [] false).Holds decoder.limit := trivial
    exact (start.run? (Lexeme.valid_of_scan _ _ scanned) run).1
  · cases read

end RecordRules.Json
