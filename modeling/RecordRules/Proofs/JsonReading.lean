/-
# JSON that is written reads back

A JSON value whose numbers are in range is read from its own text with the members of its
objects put in order, and with each number as what the reader of numbers makes of its text. The
texts of its lexemes are scanned as those lexemes, since nothing but a comma or a bracket ever
stands behind a number; and the machine that reads lexemes, having come to where a value must
come, has that value complete when it has read the lexemes of the value.

Two things can keep a decoder from reading it: a number whose text it does not read, and a limit
on the arrays and objects that are open at once, if the value is deeper than that
(`Decoder.Accepts`). What comes back is the value itself, up to the order of members, exactly if
the decoder keeps all its numbers, as one that reads the nearest numbers does.

Key definitions: `EachNumber`, `Valid`, `inOrder`, `mapNumbers`, `depth`, `Decoder.Accepts`, `Restores`. Key
theorems: `scan_write`, `ofLexemes?_lexemes`, `Decoder.restores_write`.
-/
import RecordRules.Proofs.Entries
import RecordRules.Proofs.JsonScanning

namespace RecordRules

/-! ### What comes back -/

/-- The result is that value if the condition holds, and there is none otherwise. -/
def Restores {α : Type} (x : α) (condition : Prop) (result : Option α) : Prop :=
  ∀ read, result = some read ↔ condition ∧ read = x

section
variable {α β γ : Type} {x : α} {y : β} {P Q : Prop} {r : Option α} {s : Option β}

theorem restores_some (h : P) : Restores x P (some x) := fun _ =>
  Option.some_inj.trans (eq_comm.trans (and_iff_right h).symm)

theorem restores_none (h : ¬ P) : Restores x P none := fun _ =>
  iff_of_false nofun fun both => h both.1

namespace Restores

theorem congr (h : Restores x P r) (same : P ↔ Q) : Restores x Q r := fun read =>
  (h read).trans (and_congr_left' same)

theorem isSome_iff (h : Restores x P r) : r.isSome = true ↔ P := by
  rw [Option.isSome_iff_exists]
  exact ⟨fun ⟨read, found⟩ => ((h read).mp found).1, fun p => ⟨x, (h x).mpr ⟨p, rfl⟩⟩⟩

theorem eq (h : Restores x P r) {read : α} (found : r = some read) : read = x := ((h read).mp found).2

/-- A second step, taken on what comes back. -/
theorem bind (h : Restores x P r) {f : α → Option β} (next : Restores y Q (f x)) :
    Restores y (P ∧ Q) (r.bind f) := by
  intro read
  rw [Option.bind_eq_some_iff, and_assoc]
  constructor
  · rintro ⟨a, found, step⟩
    obtain ⟨p, rfl⟩ := (h a).mp found
    exact ⟨p, (next read).mp step⟩
  · rintro ⟨p, reads⟩
    exact ⟨x, (h x).mpr ⟨p, rfl⟩, (next read).mpr reads⟩

theorem map (h : Restores x P r) (f : α → β) : Restores (f x) P (r.map f) := by
  have next : Restores (f x) True ((some ∘ f) x) := restores_some trivial
  rw [Option.map_eq_bind]
  exact (h.bind next).congr (and_iff_left trivial)

/-- A pair comes back exactly if both parts do. -/
theorem map₂ (h : Restores x P r) (h' : Restores y Q s) (f : α → β → γ) :
    Restores (f x y) (P ∧ Q) (Option.map₂ f r s) := by
  intro read
  rw [Option.map₂_eq_some_iff]
  constructor
  · rintro ⟨a, b, found, found', rfl⟩
    obtain ⟨p, rfl⟩ := (h a).mp found
    obtain ⟨q, rfl⟩ := (h' b).mp found'
    exact ⟨⟨p, q⟩, rfl⟩
  · rintro ⟨⟨p, q⟩, rfl⟩
    exact ⟨x, y, (h x).mpr ⟨p, rfl⟩, (h' y).mpr ⟨q, rfl⟩, rfl⟩

end Restores

end

namespace Json

/-! ### Values that there can be -/

mutual

/-- Every number in the value has the property. -/
def EachNumber (p : Number → Prop) : Json → Prop
  | .number n => p n
  | .array items => itemsEachNumber p items
  | .object members => membersEachNumber p members
  | _ => True

def itemsEachNumber (p : Number → Prop) : List Json → Prop
  | [] => True
  | item :: rest => item.EachNumber p ∧ itemsEachNumber p rest

def membersEachNumber (p : Number → Prop) : List (String × Json) → Prop
  | [] => True
  | (_, value) :: rest => value.EachNumber p ∧ membersEachNumber p rest

end

/-- All numbers are in range. -/
def Valid (j : Json) : Prop := j.EachNumber Number.Valid

mutual

/-- The value with the members of every object in ascending order, of those with one name the last. -/
def inOrder : Json → Json
  | .array items => .array (itemsInOrder items)
  | .object members => .object (Keyed.ofList (membersInOrder members))
  | j => j

def itemsInOrder : List Json → List Json
  | [] => []
  | item :: rest => inOrder item :: itemsInOrder rest

def membersInOrder : List (String × Json) → List (String × Json)
  | [] => []
  | (name, value) :: rest => (name, inOrder value) :: membersInOrder rest

end

mutual

/-- The value with every number mapped. -/
def mapNumbers (f : Number → Number) : Json → Json
  | .number n => .number (f n)
  | .array items => .array (itemsMapNumbers f items)
  | .object members => .object (membersMapNumbers f members)
  | j => j

def itemsMapNumbers (f : Number → Number) : List Json → List Json
  | [] => []
  | item :: rest => item.mapNumbers f :: itemsMapNumbers f rest

def membersMapNumbers (f : Number → Number) : List (String × Json) → List (String × Json)
  | [] => []
  | (name, value) :: rest => (name, value.mapNumbers f) :: membersMapNumbers f rest

end

mutual

/-- How many arrays and objects are open at once where the value is deepest. -/
def depth : Json → Nat
  | .array items => itemsDepth items + 1
  | .object members => membersDepth members + 1
  | _ => 0

def itemsDepth : List Json → Nat
  | [] => 0
  | item :: rest => max item.depth (itemsDepth rest)

def membersDepth : List (String × Json) → Nat
  | [] => 0
  | (_, value) :: rest => max value.depth (membersDepth rest)

end

theorem itemsInOrder_eq_map (items : List Json) : itemsInOrder items = items.map inOrder := by
  induction items with
  | nil => rfl
  | cons item rest ih => exact congrArg (item.inOrder :: ·) ih

theorem itemsMapNumbers_eq_map (f : Number → Number) (items : List Json) :
    itemsMapNumbers f items = items.map (mapNumbers f) := by
  induction items with
  | nil => rfl
  | cons item rest ih => exact congrArg (item.mapNumbers f :: ·) ih

/-! ### Numbers -/

theorem itemsEachNumber_iff {p : Number → Prop} {items : List Json} :
    itemsEachNumber p items ↔ ∀ item ∈ items, item.EachNumber p := by
  induction items with
  | nil => simp [itemsEachNumber]
  | cons item rest ih => simp [itemsEachNumber, ih]

theorem membersEachNumber_iff {p : Number → Prop} {members : List (String × Json)} :
    membersEachNumber p members ↔ ∀ member ∈ members, member.2.EachNumber p := by
  induction members with
  | nil => simp [membersEachNumber]
  | cons member rest ih => simp [membersEachNumber, ih]

mutual

theorem EachNumber.mono {p q : Number → Prop} (imp : ∀ n, p n → q n) :
    ∀ {j : Json}, j.EachNumber p → j.EachNumber q
  | .null, _ | .bool _, _ | .string _, _ => trivial
  | .number n, h => imp n h
  | .array items, h => itemsEachNumber_mono imp items h
  | .object members, h => membersEachNumber_mono imp members h

theorem itemsEachNumber_mono {p q : Number → Prop} (imp : ∀ n, p n → q n) :
    ∀ items : List Json, itemsEachNumber p items → itemsEachNumber q items
  | [], _ => trivial
  | _ :: rest, h => ⟨h.1.mono imp, itemsEachNumber_mono imp rest h.2⟩

theorem membersEachNumber_mono {p q : Number → Prop} (imp : ∀ n, p n → q n) :
    ∀ members : List (String × Json), membersEachNumber p members → membersEachNumber q members
  | [], _ => trivial
  | (_, _) :: rest, h => ⟨h.1.mono imp, membersEachNumber_mono imp rest h.2⟩

end

theorem eachNumber_binary64 {p : Number → Prop} {x : Binary64} :
    (binary64 x).EachNumber p ↔ (x.isFinite = true → p (.float x)) := by
  unfold binary64
  split
  · rename_i finite
    exact ⟨fun h _ => h, fun h => h finite⟩
  · rename_i infinite
    exact iff_of_true trivial fun finite => absurd finite infinite

theorem membersMapNumbers_names (f : Number → Number) (members : List (String × Json)) :
    (membersMapNumbers f members).map Prod.fst = members.map Prod.fst := by
  induction members with
  | nil => rfl
  | cons member rest ih => exact congrArg (member.1 :: ·) ih

theorem depth_binary64 (x : Binary64) : (binary64 x).depth = 0 := by
  unfold binary64
  split <;> rfl

/-- A number has no members to put in order. -/
theorem inOrder_mapNumbers_binary64 (f : Number → Number) (x : Binary64) :
    ((binary64 x).mapNumbers f).inOrder = (binary64 x).mapNumbers f := by
  unfold binary64
  split <;> rfl

mutual

/-- Numbers do not make a value deep. -/
theorem depth_mapNumbers (f : Number → Number) : ∀ j : Json, (j.mapNumbers f).depth = j.depth
  | .null | .bool _ | .number _ | .string _ => rfl
  | .array items => congrArg (· + 1) (depth_itemsMapNumbers f items)
  | .object members => congrArg (· + 1) (depth_membersMapNumbers f members)

theorem depth_itemsMapNumbers (f : Number → Number) :
    ∀ items : List Json, itemsDepth (itemsMapNumbers f items) = itemsDepth items
  | [] => rfl
  | item :: rest => congrArg₂ max (depth_mapNumbers f item) (depth_itemsMapNumbers f rest)

theorem depth_membersMapNumbers (f : Number → Number) :
    ∀ members : List (String × Json), membersDepth (membersMapNumbers f members) = membersDepth members
  | [] => rfl
  | (_, value) :: rest => congrArg₂ max (depth_mapNumbers f value) (depth_membersMapNumbers f rest)

end

theorem isFinite_toBinary64 {n : Number} (valid : n.Valid) : n.toBinary64.isFinite = true := by
  cases n with
  | float x => exact valid
  | integer n =>
    obtain ⟨low, high⟩ := valid
    have small : n.natAbs < 2 ^ 64 := by omega
    exact Binary64.isFinite_ofInt small (by decide)

namespace NumberReader

variable (numbers : NumberReader)

/-- The number as the reader has it from its text, and the number itself where the text is not read. -/
def reread (n : Number) : Number := (numbers.read? n.text).getD n

variable {numbers} {n : Number}

theorem read?_text (reads : numbers.Reads n) : numbers.read? n.text = some (numbers.reread n) := by
  obtain ⟨read, found⟩ := Option.isSome_iff_exists.mp reads
  rw [reread, found, Option.getD_some]

/-- A number that is read is kept exactly if it is read as the same quantity. -/
theorem keeps_iff (reads : numbers.Reads n) :
    numbers.Keeps n ↔ (numbers.reread n).toBinary64 = n.toBinary64 := by
  rw [Keeps, read?_text reads, Option.map_some, Option.some_inj]

theorem Keeps.reads (keeps : numbers.Keeps n) : numbers.Reads n := by
  obtain ⟨read, found, _⟩ := Option.map_eq_some_iff.mp keeps
  exact Option.isSome_of_eq_some found

theorem Keeps.toBinary64_reread (keeps : numbers.Keeps n) : (numbers.reread n).toBinary64 = n.toBinary64 := by
  obtain ⟨read, found, same⟩ := Option.map_eq_some_iff.mp keeps
  rw [reread, found, Option.getD_some, same]

/-- A number that is read as one alike is kept: only the zeros are alike and not the same, and they are read as
what they are. -/
theorem keeps_iff_alike {x : Binary64} (reads : numbers.Reads (.float x)) :
    numbers.Keeps (.float x) ↔ (numbers.reread (.float x)).toBinary64.Alike x := by
  rw [keeps_iff reads]
  refine ⟨fun same => Binary64.alike_iff_key.mpr (congrArg Binary64.key same), fun alike => ?_⟩
  obtain same | ⟨_, sign, _, rfl⟩ := alike.eq_or_zeros
  · exact same
  · have read : numbers.read? (Number.text (.float (.ofRank sign 0))) = _ := numbers.zero sign
    rw [reread, read, Option.getD_some]

/-- A number that is read as an equal one is kept. -/
theorem keeps_iff_eq {x : Binary64} (reads : numbers.Reads (.float x)) :
    numbers.Keeps (.float x) ↔ x.eq (numbers.reread (.float x)).toBinary64 = true := by
  have finite : (numbers.reread (.float x)).toBinary64.isFinite = true :=
    isFinite_toBinary64 (numbers.valid (read?_text reads))
  rw [keeps_iff_alike reads, Binary64.alike_iff_key, Binary64.eq_iff]
  cases place : (numbers.reread (.float x)).toBinary64.key with
  | none =>
    have number := Binary64.isNaN_of_isFinite finite
    rw [Binary64.isNaN_iff_key.mpr place] at number
    cases number
  | some p => exact ⟨fun same => ⟨p, same.symm, rfl⟩, fun ⟨q, here, there⟩ => there.trans here.symm⟩

end NumberReader

/-! ### Scanning -/

theorem endsNumber_comma (ls : List Lexeme) : EndsNumber (.comma :: ls) := by rintro _ ⟨⟩; rfl

theorem endsNumber_closeArray (ls : List Lexeme) : EndsNumber (.closeArray :: ls) := by rintro _ ⟨⟩; rfl

theorem endsNumber_closeObject (ls : List Lexeme) : EndsNumber (.closeObject :: ls) := by rintro _ ⟨⟩; rfl

/-- The lexeme is a number. -/
def Lexeme.isNumber : Lexeme → Bool
  | .number _ => true
  | _ => false

section
variable {numbers : NumberReader}

/-- A lexeme that is no number may stand anywhere. -/
theorem Scans.cons_plain {l : Lexeme} {ls : List Lexeme} (h : Scans numbers ls)
    (plain : l.isNumber = false := by rfl) : Scans numbers (l :: ls) := by
  refine h.cons ?_ ?_
  · cases l with
    | number => cases plain
    | _ => trivial
  · rintro n rfl
    cases plain

mutual

/-- The texts of the lexemes of a value are scanned as those lexemes. -/
theorem scans_lexemesBefore : ∀ (j : Json) {rest : List Lexeme}, j.Valid → Scans numbers rest →
    EndsNumber rest → Scans numbers (lexemesBefore rest j)
  | .null, _, _, h, _ => h.cons_plain
  | .bool _, _, _, h, _ => h.cons_plain
  | .string _, _, _, h, _ => h.cons_plain
  | .number _, _, valid, h, ends => h.cons valid fun _ _ => ends
  | .array items, _, valid, h, _ =>
    (scans_itemsBefore items valid h.cons_plain (endsNumber_closeArray _)).cons_plain
  | .object members, _, valid, h, _ =>
    (scans_membersBefore members valid h.cons_plain (endsNumber_closeObject _)).cons_plain

theorem scans_itemsBefore : ∀ (items : List Json) {rest : List Lexeme}, itemsEachNumber Number.Valid items →
    Scans numbers rest → EndsNumber rest → Scans numbers (itemsBefore rest items)
  | [], _, _, h, _ => h
  | [item], _, valid, h, ends => scans_lexemesBefore item valid.1 h ends
  | item :: next :: more, _, valid, h, ends =>
    scans_lexemesBefore item valid.1 ((scans_itemsBefore (next :: more) valid.2 h ends).cons_plain)
      (endsNumber_comma _)

theorem scans_membersBefore : ∀ (members : List (String × Json)) {rest : List Lexeme},
    membersEachNumber Number.Valid members → Scans numbers rest → EndsNumber rest →
    Scans numbers (membersBefore rest members)
  | [], _, _, h, _ => h
  | [(_, value)], _, valid, h, ends =>
    ((scans_lexemesBefore value valid.1 h ends).cons_plain).cons_plain
  | (_, value) :: next :: more, _, valid, h, ends =>
    ((scans_lexemesBefore value valid.1 ((scans_membersBefore (next :: more) valid.2 h ends).cons_plain)
      (endsNumber_comma _)).cons_plain).cons_plain

end

/-- **Scanning.** The text of a value is scanned as what its lexemes are read as. -/
theorem scan_write {j : Json} (valid : j.Valid) :
    Lexeme.scan numbers j.write.toList = (lexemes j).mapM (Lexeme.reread? numbers) := by
  have scanned : Scans numbers (lexemes j) := scans_lexemesBefore j valid scans_nil nofun
  rw [write, String.toList_ofList, scanned]

end

/-! ### Lexemes and their numbers -/

/-- The lexeme with its number mapped, if it is one. -/
def Lexeme.mapNumber (f : Number → Number) : Lexeme → Lexeme
  | .number n => .number (f n)
  | l => l

section
variable {numbers : NumberReader} {p : Number → Prop}

theorem Lexeme.reread?_eq {l : Lexeme} (reads : l.EachNumber numbers.Reads) :
    l.reread? numbers = some (l.mapNumber numbers.reread) := by
  cases l with
  | number n => exact congrArg (Option.map Lexeme.number) (NumberReader.read?_text reads)
  | _ => rfl

theorem Lexeme.reads_of_reread? {l read : Lexeme} (h : l.reread? numbers = some read) :
    l.EachNumber numbers.Reads := by
  cases l with
  | number n =>
    obtain ⟨m, found, _⟩ := Option.map_eq_some_iff.mp h
    exact Option.isSome_of_eq_some found
  | _ => trivial

theorem mapM_reread?_eq : ∀ {ls : List Lexeme}, (∀ l ∈ ls, l.EachNumber numbers.Reads) →
    ls.mapM (Lexeme.reread? numbers) = some (ls.map (Lexeme.mapNumber numbers.reread))
  | [], _ => rfl
  | l :: ls, reads => by
    obtain ⟨first, more⟩ := List.forall_mem_cons.mp reads
    rw [List.mapM_cons, Lexeme.reread?_eq first, mapM_reread?_eq more]
    rfl

theorem reads_of_mapM_reread? : ∀ {ls read : List Lexeme}, ls.mapM (Lexeme.reread? numbers) = some read →
    ∀ l ∈ ls, l.EachNumber numbers.Reads
  | [], _, _ => nofun
  | l :: ls, _, h => by
    rw [List.mapM_cons] at h
    obtain ⟨_, first, h⟩ := Option.bind_eq_some_iff.mp h
    obtain ⟨_, more, _⟩ := Option.bind_eq_some_iff.mp h
    exact List.forall_mem_cons.mpr ⟨Lexeme.reads_of_reread? first, reads_of_mapM_reread? more⟩

mutual

/-- The numbers among the lexemes of a value are those in the value. -/
theorem eachNumber_lexemesBefore : ∀ (j : Json) (rest : List Lexeme),
    (∀ l ∈ lexemesBefore rest j, l.EachNumber p) ↔ j.EachNumber p ∧ ∀ l ∈ rest, l.EachNumber p
  | .null, _ | .bool _, _ | .number _, _ | .string _, _ => List.forall_mem_cons
  | .array items, rest => by
    rw [lexemesBefore, List.forall_mem_cons, eachNumber_itemsBefore items, List.forall_mem_cons]
    simp only [Lexeme.EachNumber, EachNumber, true_and]
  | .object members, rest => by
    rw [lexemesBefore, List.forall_mem_cons, eachNumber_membersBefore members, List.forall_mem_cons]
    simp only [Lexeme.EachNumber, EachNumber, true_and]

theorem eachNumber_itemsBefore : ∀ (items : List Json) (rest : List Lexeme),
    (∀ l ∈ itemsBefore rest items, l.EachNumber p) ↔ itemsEachNumber p items ∧ ∀ l ∈ rest, l.EachNumber p
  | [], _ => (and_iff_right trivial).symm
  | [item], rest => by
    rw [itemsBefore, eachNumber_lexemesBefore item]
    simp only [itemsEachNumber, and_true]
  | item :: next :: more, rest => by
    rw [itemsBefore, eachNumber_lexemesBefore item, List.forall_mem_cons, eachNumber_itemsBefore (next :: more)]
    · simp only [Lexeme.EachNumber, itemsEachNumber, true_and, and_assoc]
    · nofun

theorem eachNumber_membersBefore : ∀ (members : List (String × Json)) (rest : List Lexeme),
    (∀ l ∈ membersBefore rest members, l.EachNumber p) ↔
      membersEachNumber p members ∧ ∀ l ∈ rest, l.EachNumber p
  | [], _ => (and_iff_right trivial).symm
  | [(_, value)], rest => by
    rw [membersBefore, List.forall_mem_cons, List.forall_mem_cons, eachNumber_lexemesBefore value]
    simp only [Lexeme.EachNumber, membersEachNumber, true_and, and_true]
  | (_, value) :: next :: more, rest => by
    rw [membersBefore, List.forall_mem_cons, List.forall_mem_cons, eachNumber_lexemesBefore value,
      List.forall_mem_cons, eachNumber_membersBefore (next :: more)]
    · simp only [Lexeme.EachNumber, membersEachNumber, true_and, and_assoc]
    · nofun

end

mutual

/-- Mapping the numbers of a value maps those of its lexemes. -/
theorem lexemesBefore_mapNumbers (f : Number → Number) : ∀ (j : Json) (rest : List Lexeme),
    lexemesBefore (rest.map (Lexeme.mapNumber f)) (j.mapNumbers f) =
      (lexemesBefore rest j).map (Lexeme.mapNumber f)
  | .null, _ | .bool _, _ | .number _, _ | .string _, _ => rfl
  | .array items, rest => congrArg (Lexeme.openArray :: ·) (itemsBefore_mapNumbers f items (.closeArray :: rest))
  | .object members, rest =>
    congrArg (Lexeme.openObject :: ·) (membersBefore_mapNumbers f members (.closeObject :: rest))

theorem itemsBefore_mapNumbers (f : Number → Number) : ∀ (items : List Json) (rest : List Lexeme),
    itemsBefore (rest.map (Lexeme.mapNumber f)) (itemsMapNumbers f items) =
      (itemsBefore rest items).map (Lexeme.mapNumber f)
  | [], _ => rfl
  | [item], rest => lexemesBefore_mapNumbers f item rest
  | item :: next :: more, rest => by
    have others := itemsBefore_mapNumbers f (next :: more) rest
    have first := lexemesBefore_mapNumbers f item (.comma :: itemsBefore rest (next :: more))
    rw [List.map_cons, ← others] at first
    exact first

theorem membersBefore_mapNumbers (f : Number → Number) : ∀ (members : List (String × Json)) (rest : List Lexeme),
    membersBefore (rest.map (Lexeme.mapNumber f)) (membersMapNumbers f members) =
      (membersBefore rest members).map (Lexeme.mapNumber f)
  | [], _ => rfl
  | [(name, value)], rest =>
    congrArg (Lexeme.string name :: Lexeme.colon :: ·) (lexemesBefore_mapNumbers f value rest)
  | (name, value) :: next :: more, rest => by
    have others := membersBefore_mapNumbers f (next :: more) rest
    have first := lexemesBefore_mapNumbers f value (.comma :: membersBefore rest (next :: more))
    rw [List.map_cons, ← others] at first
    exact congrArg (Lexeme.string name :: Lexeme.colon :: ·) first

end

end

/-! ### Reading -/

theorem run?_cons (limit : Option Nat) (reader : Reader) (l : Lexeme) (ls : List Lexeme) :
    Reader.run? limit reader (l :: ls) =
      (reader.step? limit l).bind fun next => Reader.run? limit next ls := by
  rw [Reader.run?, List.foldlM_cons]
  rfl

theorem run?_step {limit : Option Nat} {reader : Reader} {l : Lexeme} {ls : List Lexeme} (next : Reader)
    (h : reader.step? limit l = some next) :
    Reader.run? limit reader (l :: ls) = Reader.run? limit next ls := by
  rw [run?_cons, h, Option.bind_some]

theorem step?_scalar {limit : Option Nat} {l : Lexeme} {j : Json} (around : List Open) (fresh : Bool)
    (h : l.scalar? = some j) :
    Reader.step? limit (.expectValue around fresh) l = some (.complete around j) := by
  cases l with
  | null | bool | number | string => simp [Reader.step?, h]
  | _ => cases h

/-- Where `count` arrays and objects are open, a value of that depth may come. -/
def hasRoom (limit : Option Nat) (count depth : Nat) : Bool :=
  depth = 0 || limit.all fun most => count + depth ≤ most

theorem hasRoom_none (count depth : Nat) : hasRoom none count depth = true := Bool.or_true _

theorem hasRoom_zero (limit : Option Nat) (count : Nat) : hasRoom limit count 0 = true := rfl

theorem hasRoom_max (limit : Option Nat) (count depth depth' : Nat) :
    hasRoom limit count (max depth depth') = (hasRoom limit count depth && hasRoom limit count depth') := by
  cases limit with
  | none => simp only [hasRoom_none, Bool.and_self]
  | some most =>
    rw [Bool.eq_iff_iff]
    simp only [hasRoom, Option.all_some, Bool.or_eq_true, Bool.and_eq_true, decide_eq_true_eq]
    omega

/-- What opens needs room for itself, and then for what is in it. -/
theorem hasRoom_succ (limit : Option Nat) (around : List Open) (depth : Nat) :
    hasRoom limit around.length (depth + 1) =
      (mayOpen limit around && hasRoom limit (around.length + 1) depth) := by
  cases limit with
  | none => simp only [hasRoom_none, mayOpen, Bool.and_self]
  | some most =>
    rw [Bool.eq_iff_iff]
    simp only [hasRoom, mayOpen, Option.all_some, Bool.or_eq_true, Bool.and_eq_true, decide_eq_true_eq]
    omega

/-- At the start there is room for a value exactly if the limit reaches to its depth. -/
theorem hasRoom_start {limit : Option Nat} {depth : Nat} :
    hasRoom limit 0 depth = true ↔ ∀ most ∈ limit, depth ≤ most := by
  cases limit with
  | none => simp [hasRoom_none]
  | some most =>
    simp only [hasRoom, Option.all_some, Bool.or_eq_true, decide_eq_true_eq, Option.mem_def, Option.some.injEq,
      forall_eq']
    omega

section
variable (limit : Option Nat)

theorem run?_openArray (around : List Open) (fresh : Bool) (ls : List Lexeme) :
    Reader.run? limit (.expectValue around fresh) (.openArray :: ls) =
      if mayOpen limit around then Reader.run? limit (.expectValue (.array [] :: around) true) ls else none := by
  rw [run?_cons, Reader.step?]
  split <;> rfl

theorem run?_openObject (around : List Open) (fresh : Bool) (ls : List Lexeme) :
    Reader.run? limit (.expectValue around fresh) (.openObject :: ls) =
      if mayOpen limit around then Reader.run? limit (.expectName around [] true) ls else none := by
  rw [run?_cons, Reader.step?]
  split <;> rfl

/-- Two checks for room, one after the other, are one. -/
theorem if_room_and {α : Type} (b c : Bool) (x : Option α) :
    (if b then (if c then x else none) else none) = if b && c then x else none := by
  cases b <;> rfl

mutual

/-- **Where a value must come.** Its lexemes are read as the value, if there is room for it, and refused
otherwise. -/
theorem run?_lexemesBefore : ∀ (j : Json) (around : List Open) (fresh : Bool) (rest : List Lexeme),
    Reader.run? limit (.expectValue around fresh) (lexemesBefore rest j) =
      if hasRoom limit around.length j.depth then Reader.run? limit (.complete around j.inOrder) rest else none
  | .null, around, fresh, _ => run?_step _ (step?_scalar around fresh rfl)
  | .bool _, around, fresh, _ => run?_step _ (step?_scalar around fresh rfl)
  | .number _, around, fresh, _ => run?_step _ (step?_scalar around fresh rfl)
  | .string _, around, fresh, _ => run?_step _ (step?_scalar around fresh rfl)
  | .array [], around, fresh, rest => by
    rw [lexemesBefore, run?_openArray, depth, hasRoom_succ, itemsDepth, hasRoom_zero, Bool.and_true]
    rfl
  | .array (item :: more), around, fresh, rest => by
    have items := run?_itemsBefore (item :: more) [] around true rest (List.cons_ne_nil _ _)
    rw [lexemesBefore, run?_openArray, items, if_room_and, depth, hasRoom_succ]
    rfl
  | .object [], around, fresh, rest => by
    rw [lexemesBefore, run?_openObject, depth, hasRoom_succ, membersDepth, hasRoom_zero, Bool.and_true]
    rfl
  | .object (member :: more), around, fresh, rest => by
    have members := run?_membersBefore (member :: more) [] around true rest (List.cons_ne_nil _ _)
    rw [lexemesBefore, run?_openObject, members, if_room_and, depth, hasRoom_succ]
    rfl

theorem run?_itemsBefore : ∀ (items read : List Json) (around : List Open) (fresh : Bool) (rest : List Lexeme),
    items ≠ [] →
    Reader.run? limit (.expectValue (.array read :: around) fresh) (itemsBefore (.closeArray :: rest) items) =
      if hasRoom limit (around.length + 1) (itemsDepth items) then
        Reader.run? limit (.complete around (.array (read.reverse ++ itemsInOrder items))) rest
      else none
  | [], _, _, _, _, nonempty => absurd rfl nonempty
  | [item], read, around, fresh, rest, _ => by
    have first := run?_lexemesBefore item (.array read :: around) fresh (.closeArray :: rest)
    rw [itemsBefore, first, itemsDepth, itemsDepth, Nat.max_zero, itemsInOrder, itemsInOrder, ← List.reverse_cons]
    rfl
  | item :: next :: more, read, around, fresh, rest, _ => by
    have first := run?_lexemesBefore item (.array read :: around) fresh
      (.comma :: itemsBefore (.closeArray :: rest) (next :: more))
    have others := run?_itemsBefore (next :: more) (item.inOrder :: read) around false rest (List.cons_ne_nil _ _)
    have deepest : itemsDepth (item :: next :: more) = max item.depth (itemsDepth (next :: more)) := rfl
    rw [itemsBefore, first, run?_step (.expectValue (.array (item.inOrder :: read) :: around) false) rfl, others,
      List.length_cons, if_room_and, deepest, hasRoom_max, List.reverse_cons, List.append_assoc]
    · rfl
    · nofun

theorem run?_membersBefore : ∀ (entries members : List (String × Json)) (around : List Open) (fresh : Bool)
    (rest : List Lexeme), entries ≠ [] →
    Reader.run? limit (.expectName around members fresh) (membersBefore (.closeObject :: rest) entries) =
      if hasRoom limit (around.length + 1) (membersDepth entries) then
        Reader.run? limit (.complete around (.object ((membersInOrder entries).foldl
          (fun sorted entry => Keyed.insert entry.1 entry.2 sorted) members))) rest
      else none
  | [], _, _, _, _, nonempty => absurd rfl nonempty
  | [(name, value)], members, around, fresh, rest, _ => by
    have first := run?_lexemesBefore value (.object members name :: around) false (.closeObject :: rest)
    rw [membersBefore, run?_step (.expectColon around members name) rfl,
      run?_step (.expectValue (.object members name :: around) false) rfl, first, membersDepth, membersDepth,
      Nat.max_zero]
    rfl
  | (name, value) :: next :: more, members, around, fresh, rest, _ => by
    have first := run?_lexemesBefore value (.object members name :: around) false
      (.comma :: membersBefore (.closeObject :: rest) (next :: more))
    have others := run?_membersBefore (next :: more) (Keyed.insert name value.inOrder members) around false rest
      (List.cons_ne_nil _ _)
    have deepest : membersDepth ((name, value) :: next :: more) = max value.depth (membersDepth (next :: more)) := rfl
    rw [membersBefore, run?_step (.expectColon around members name) rfl,
      run?_step (.expectValue (.object members name :: around) false) rfl, first,
      run?_step (.expectName around (Keyed.insert name value.inOrder members) false) rfl, others,
      List.length_cons, if_room_and, deepest, hasRoom_max]
    · rfl
    · nofun

end

/-- **Reading.** The lexemes of a value are read exactly if the limit reaches to its depth, and then as it is,
with its members put in order. -/
theorem ofLexemes?_lexemes (j : Json) :
    ofLexemes? limit (lexemes j) = if hasRoom limit 0 j.depth then some j.inOrder else none := by
  have run := run?_lexemesBefore limit j [] false []
  rw [ofLexemes?, lexemes, run]
  cases hasRoom limit 0 j.depth <;> rfl

end

/-! ### Round trip -/

namespace Decoder

/-- The decoder reads the texts of all numbers in the value, and its limit reaches to the depth of the value. -/
structure Accepts (decoder : Decoder) (j : Json) : Prop where
  numbers : j.EachNumber decoder.numbers.Reads
  depth : ∀ most ∈ decoder.limit, j.depth ≤ most

/-- **Round trip.** The text of a value that there can be is read exactly if the decoder accepts the value, and
then as that value, with its members put in order and its numbers as the decoder has them from their texts. -/
theorem restores_write (decoder : Decoder) {j : Json} (valid : j.Valid) :
    Restores (j.mapNumbers decoder.numbers.reread).inOrder (decoder.Accepts j) (decoder.read? j.write) := by
  rw [read?, scan_write valid]
  cases read : (lexemes j).mapM (Lexeme.reread? decoder.numbers) with
  | none =>
    refine restores_none fun accepts => ?_
    have reads := (eachNumber_lexemesBefore j []).mpr ⟨accepts.numbers, nofun⟩
    cases read.symm.trans (mapM_reread?_eq reads)
  | some ls =>
    have reads := reads_of_mapM_reread? read
    have mapped : ls = lexemes (j.mapNumbers decoder.numbers.reread) :=
      (Option.some_inj.mp (read.symm.trans (mapM_reread?_eq reads))).trans
        (lexemesBefore_mapNumbers _ j []).symm
    rw [Option.bind_some, mapped, ofLexemes?_lexemes, depth_mapNumbers]
    by_cases room : hasRoom decoder.limit 0 j.depth = true
    · rw [if_pos room]
      exact restores_some ⟨((eachNumber_lexemesBefore j []).mp reads).1, hasRoom_start.mp room⟩
    · rw [if_neg room]
      exact restores_none fun accepts => room (hasRoom_start.mpr accepts.depth)

end Decoder

end Json

end RecordRules
