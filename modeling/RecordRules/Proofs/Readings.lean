/-
# A text has one reading at most

For its place in the order a text is read as a number, as a timestamp or as a plain date, in this
order, and the first reading counts. No text has two of them, so the order does not matter.

A date begins with the digits of its year and a hyphen. A numeral that begins with digits goes on
with a point, a power of ten or nothing; a sign in it stands in front of all its digits or right
behind the `e`, never behind a digit (`Numeral.read?_of_beginsDated`). So no date is a number,
though the year of a plain date may have a sign of its own and blanks in front of it. Of the
dates, a timestamp has a time of the day with colons in it, and a plain date has digits, hyphens,
blanks and a sign.

Key definitions: `Instant.BeginsDated`, `Value.placeReaders`, `Value.comparableBy`. Key theorems:
`Numeral.read?_of_beginsDated`, `Instant.readDate?_of_readTimestamp?`, `Value.placeReaders_exclusive`,
`Value.readings_exclusive`.
-/
import RecordRules.Evaluate
import RecordRules.Proofs.Scanning

namespace RecordRules

/-! ### What the readers of parts take -/

theorem Text.exists_blanks (cs : List Char) : ∃ blanks, cs = blanks ++ trimStart cs ∧ ∀ c ∈ blanks, isBlank c = true :=
  ⟨cs.takeWhile isBlank, List.takeWhile_append_dropWhile.symm, fun _ => List.mem_takeWhile_imp⟩

namespace Instant

section
variable {count most n : Nat} {c : Char} {year : Int} {cs rest : List Char} {t : Instant}

theorem digits?_eq_some (h : digits? count cs = some (n, rest)) :
    ∃ front, cs = front ++ rest ∧ front.length = count ∧ ∀ c ∈ front, c.isDigit = true := by
  unfold digits? at h
  dsimp only at h
  split at h
  · rename_i written
    cases h
    exact ⟨cs.take count, (List.take_append_drop count cs).symm, written.1, List.all_eq_true.mp written.2⟩
  · cases h

theorem skip?_eq_some (h : skip? c cs = some rest) : cs = c :: rest := by
  cases cs with
  | nil => cases h
  | cons first more =>
    rw [skip?] at h
    split at h <;> cases h
    subst first
    rfl

theorem upTo?_eq_some (h : upTo? most cs = some (n, rest)) :
    ∃ front, cs = front ++ rest ∧ front ≠ [] ∧ ∀ c ∈ front, c.isDigit = true := by
  unfold upTo? at h
  dsimp only at h
  split at h
  · cases h
  · rename_i nonempty
    cases h
    have front : (cs.takeWhile Char.isDigit).take most <+: cs :=
      (List.take_prefix _ _).trans (List.takeWhile_prefix _)
    refine ⟨_, (List.prefix_iff_eq_append.mp front).symm, by simpa using nonempty, fun c mem => ?_⟩
    exact List.mem_takeWhile_imp (List.mem_of_mem_take mem)

/-- A year has a sign or none. -/
theorem readYear?_eq_some (h : readYear? cs = some (year, rest)) : ∃ sign front, cs = sign ++ (front ++ rest) ∧
    (sign = [] ∨ sign = ['-'] ∨ sign = ['+']) ∧ front ≠ [] ∧ ∀ c ∈ front, c.isDigit = true := by
  unfold readYear? at h
  split at h
  all_goals
    obtain ⟨⟨n, _⟩, read, same⟩ := Option.map_eq_some_iff.mp h
    cases same
    obtain ⟨front, rfl, written⟩ := upTo?_eq_some read
  · exact ⟨['-'], front, rfl, .inr (.inl rfl), written⟩
  · exact ⟨['+'], front, rfl, .inr (.inr rfl), written⟩
  · exact ⟨[], front, rfl, .inl rfl, written⟩

/-! ### Dates begin with a year -/

/-- Digits and a hyphen stand in front, behind blanks and a sign if there are any. -/
def BeginsDated (cs : List Char) : Prop :=
  ∃ blanks sign digits rest, cs = blanks ++ (sign ++ (digits ++ '-' :: rest)) ∧
    (∀ c ∈ blanks, Text.isBlank c = true) ∧ (sign = [] ∨ sign = ['-'] ∨ sign = ['+']) ∧
      digits ≠ [] ∧ ∀ c ∈ digits, c.isDigit = true

theorem beginsDated_of_readDate? (h : readDate? cs = some t) : BeginsDated cs := by
  obtain ⟨⟨year, _⟩, read, h⟩ := Option.bind_eq_some_iff.mp h
  obtain ⟨rest, hyphen, -⟩ := Option.bind_eq_some_iff.mp h
  obtain ⟨blanks, front, blank⟩ := Text.exists_blanks cs
  obtain ⟨sign, digits, trimmed, isSign, written⟩ := readYear?_eq_some read
  rw [trimmed, skip?_eq_some hyphen] at front
  exact ⟨blanks, sign, digits, rest, front, blank, isSign, written⟩

theorem beginsDated_of_readTimestamp? (h : readTimestamp? cs = some t) : BeginsDated cs := by
  obtain ⟨⟨date, _⟩, full, -⟩ := Option.bind_eq_some_iff.mp h
  obtain ⟨⟨year, _⟩, read, full⟩ := Option.bind_eq_some_iff.mp full
  obtain ⟨rest, hyphen, -⟩ := Option.bind_eq_some_iff.mp full
  obtain ⟨digits, front, four, written⟩ := digits?_eq_some read
  rw [skip?_eq_some hyphen] at front
  refine ⟨[], [], digits, rest, front, nofun, .inl rfl, ?_, written⟩
  rintro rfl
  cases four

end

end Instant

/-! ### No numeral begins with a date -/

namespace Numeral

variable {c : Char} {cs digits rest : List Char}

theorem splitSign_cons (noSign : c ≠ '-' ∧ c ≠ '+') (cs : List Char) : splitSign (c :: cs) = (false, c :: cs) := by
  unfold splitSign
  split <;> simp_all

/-- Behind the sign and the first digits of a numeral stands a point, an `e` or nothing. -/
theorem read?_of_stop (unsigned : (splitSign cs).2 = digits ++ c :: rest) (all : ∀ d ∈ digits, d.isDigit = true)
    (noDigit : c.isDigit = false) (noPoint : c ≠ '.') (noPower : ¬(c = 'e' ∨ c = 'E')) : read? cs = none := by
  have cut : splitDigits (digits ++ c :: rest) = (digits, c :: rest) :=
    Binary64.splitDigits_append all (by rintro _ ⟨⟩; exact noDigit)
  have whole : splitFraction (c :: rest) = ([], c :: rest) := by
    unfold splitFraction
    split <;> simp_all
  have none : readExponent? (c :: rest) = none := by
    rw [readExponent?, if_neg noPower]
  unfold read?
  simp only [unsigned, cut, whole, none, Option.map_none, ite_self]

/-- **No number.** A numeral begins with no blank, and in none a hyphen stands behind a digit. -/
theorem read?_of_beginsDated (h : Instant.BeginsDated cs) : read? cs = none := by
  obtain ⟨blanks, sign, digits, rest, rfl, blank, isSign, nonempty, all⟩ := h
  cases blanks with
  | cons b blanks =>
    have first : Text.isBlank b = true := blank b List.mem_cons_self
    have other {c : Char} (solid : Text.isBlank c = false) : b ≠ c := by
      rintro rfl
      rw [first] at solid
      cases solid
    have noDigit : b.isDigit = false := by
      by_contra digit
      obtain ⟨low, high⟩ := toNat_of_isDigit (by simpa using digit)
      exact other (not_blank (by omega) (by omega)) rfl
    have noPower : ¬(b = 'e' ∨ b = 'E') := by
      rintro (rfl | rfl) <;> exact other rfl rfl
    rw [List.cons_append]
    generalize blanks ++ (sign ++ (digits ++ '-' :: rest)) = behind
    have unsigned : (splitSign (b :: behind)).2 = [] ++ b :: behind :=
      congrArg Prod.snd (splitSign_cons ⟨other rfl, other rfl⟩ behind)
    exact read?_of_stop unsigned nofun noDigit (other rfl) noPower
  | nil =>
    obtain ⟨d, more, rfl⟩ := List.exists_cons_of_ne_nil nonempty
    have digit : d.isDigit = true := all d List.mem_cons_self
    have noSign : d ≠ '-' ∧ d ≠ '+' := by
      constructor <;> rintro rfl <;> cases digit
    have unsigned : (splitSign (sign ++ (d :: more ++ '-' :: rest))).2 = d :: more ++ '-' :: rest := by
      rcases isSign with rfl | rfl | rfl
      · exact congrArg Prod.snd (splitSign_cons noSign _)
      · rfl
      · rfl
    exact read?_of_stop unsigned all rfl (by decide) (by decide)

end Numeral

/-! ### No plain date has a time -/

namespace Instant

section
variable {count most n : Nat} {year : Int} {cs rest : List Char} {t : Instant}

/-! No part of a plain date takes a colon away from the text behind it, and nothing stands behind the last one. -/

theorem colon_mem_of_append {front : List Char} (all : ∀ c ∈ front, c ≠ ':') (mem : ':' ∈ front ++ rest) :
    ':' ∈ rest :=
  (List.mem_append.mp mem).resolve_left fun inside => all ':' inside rfl

theorem ne_colon_of_isDigit {c : Char} (digit : c.isDigit = true) : c ≠ ':' := by
  rintro rfl
  cases digit

theorem colon_mem_trimStart (mem : ':' ∈ cs) : ':' ∈ Text.trimStart cs := by
  obtain ⟨blanks, front, blank⟩ := Text.exists_blanks cs
  rw [front] at mem
  refine colon_mem_of_append (fun c inside => ?_) mem
  rintro rfl
  cases blank ':' inside

theorem colon_mem_of_skip? (h : skip? '-' cs = some rest) (mem : ':' ∈ cs) : ':' ∈ rest := by
  rw [skip?_eq_some h] at mem
  exact (List.mem_cons.mp mem).resolve_left (by decide)

theorem colon_mem_of_upTo? (h : upTo? most cs = some (n, rest)) (mem : ':' ∈ cs) : ':' ∈ rest := by
  obtain ⟨front, rfl, -, all⟩ := upTo?_eq_some h
  exact colon_mem_of_append (fun c inside => ne_colon_of_isDigit (all c inside)) mem

theorem colon_mem_of_readYear? (h : readYear? cs = some (year, rest)) (mem : ':' ∈ cs) : ':' ∈ rest := by
  obtain ⟨sign, front, rfl, isSign, -, all⟩ := readYear?_eq_some h
  have behind : ':' ∈ front ++ rest := by
    refine colon_mem_of_append (fun c inside => ?_) mem
    rcases isSign with rfl | rfl | rfl
    · cases inside
    · rw [List.mem_singleton.mp inside]
      decide
    · rw [List.mem_singleton.mp inside]
      decide
  exact colon_mem_of_append (fun c inside => ne_colon_of_isDigit (all c inside)) behind

theorem colon_not_mem_of_readDate? (h : readDate? cs = some t) : ':' ∉ cs := by
  intro mem
  obtain ⟨⟨year, _⟩, readYear, h⟩ := Option.bind_eq_some_iff.mp h
  obtain ⟨_, hyphen, h⟩ := Option.bind_eq_some_iff.mp h
  obtain ⟨⟨month, _⟩, readMonth, h⟩ := Option.bind_eq_some_iff.mp h
  obtain ⟨_, hyphen', h⟩ := Option.bind_eq_some_iff.mp h
  obtain ⟨⟨day, last⟩, readDay, h⟩ := Option.bind_eq_some_iff.mp h
  have behindYear := colon_mem_of_readYear? readYear (colon_mem_trimStart mem)
  have behindMonth := colon_mem_of_upTo? readMonth (colon_mem_trimStart (colon_mem_of_skip? hyphen behindYear))
  have behindDay := colon_mem_of_upTo? readDay (colon_mem_trimStart (colon_mem_of_skip? hyphen' behindMonth))
  dsimp only at h
  split at h
  · rename_i ends
    rw [List.isEmpty_iff.mp ends.1] at behindDay
    cases behindDay
  · cases h

/-! A timestamp has a colon behind its hour. -/

theorem suffix_of_digits? (h : digits? count cs = some (n, rest)) : rest <:+ cs := by
  obtain ⟨front, same, -⟩ := digits?_eq_some h
  exact ⟨front, same.symm⟩

theorem suffix_of_skip? {c : Char} (h : skip? c cs = some rest) : rest <:+ cs :=
  ⟨[c], (skip?_eq_some h).symm⟩

theorem suffix_of_readFullDate? {date : Date} (h : readFullDate? cs = some (date, rest)) : rest <:+ cs := by
  obtain ⟨⟨year, _⟩, readYear, h⟩ := Option.bind_eq_some_iff.mp h
  obtain ⟨_, hyphen, h⟩ := Option.bind_eq_some_iff.mp h
  obtain ⟨⟨month, _⟩, readMonth, h⟩ := Option.bind_eq_some_iff.mp h
  obtain ⟨_, hyphen', h⟩ := Option.bind_eq_some_iff.mp h
  obtain ⟨⟨day, last⟩, readDay, h⟩ := Option.bind_eq_some_iff.mp h
  dsimp only at h
  split at h
  · cases h
    calc rest
        <:+ _ := suffix_of_digits? readDay
      _ <:+ _ := suffix_of_skip? hyphen'
      _ <:+ _ := suffix_of_digits? readMonth
      _ <:+ _ := suffix_of_skip? hyphen
      _ <:+ cs := suffix_of_digits? readYear
  · cases h

theorem colon_mem_of_readTime? {ofDay : Nat} {leap : Bool} (h : readTime? cs = some (ofDay, leap, rest)) :
    ':' ∈ cs := by
  obtain ⟨⟨hour, _⟩, readHour, h⟩ := Option.bind_eq_some_iff.mp h
  obtain ⟨_, colon, -⟩ := Option.bind_eq_some_iff.mp h
  refine (suffix_of_digits? readHour).mem ?_
  rw [skip?_eq_some colon]
  exact List.mem_cons_self

theorem colon_mem_of_readTimestamp? (h : readTimestamp? cs = some t) : ':' ∈ cs := by
  obtain ⟨⟨date, behind⟩, full, h⟩ := Option.bind_eq_some_iff.mp h
  cases behind with
  | nil => cases h
  | cons separator behind =>
    dsimp only [Option.bind_eq_bind, Option.bind_some] at h
    split at h
    · obtain ⟨⟨ofDay, leap, _⟩, time, -⟩ := Option.bind_eq_some_iff.mp h
      exact (suffix_of_readFullDate? full).mem (List.mem_cons_of_mem _ (colon_mem_of_readTime? time))
    · cases h

/-- **Not both.** No timestamp is a plain date. -/
theorem readDate?_of_readTimestamp? (h : readTimestamp? cs = some t) : readDate? cs = none := by
  cases date : readDate? cs with
  | none => rfl
  | some u => exact absurd (colon_mem_of_readTimestamp? h) (colon_not_mem_of_readDate? date)

end

end Instant

/-! ### The order of the readers -/

section
variable {α β : Type} {readers others : List (α → Option β)} {a : α} {b : β}

/-- If at most one reader reads it, what is read first is what is read. -/
theorem findSome?_eq_some_iff_of_exclusive
    (exclusive : readers.Pairwise fun read other => read a = none ∨ other a = none) :
    readers.findSome? (· a) = some b ↔ ∃ read ∈ readers, read a = some b := by
  induction exclusive with
  | nil => simp
  | @cons read readers others _ ih =>
    simp only [List.findSome?_cons, List.mem_cons, exists_eq_or_imp]
    cases first : read a with
    | none => simpa using ih
    | some c =>
      have nothing : ¬ ∃ other ∈ readers, other a = some b := by
        rintro ⟨other, mem, second⟩
        rcases others other mem with none | none
        · cases first.symm.trans none
        · cases second.symm.trans none
      exact (or_iff_left nothing).symm

theorem findSome?_eq_of_perm (same : others.Perm readers)
    (exclusive : readers.Pairwise fun read other => read a = none ∨ other a = none) :
    others.findSome? (· a) = readers.findSome? (· a) := by
  have reordered : others.Pairwise fun read other => read a = none ∨ other a = none :=
    exclusive.perm same.symm Or.symm
  ext b
  rw [findSome?_eq_some_iff_of_exclusive exclusive, findSome?_eq_some_iff_of_exclusive reordered]
  exact exists_congr fun read => and_congr_left fun _ => same.mem_iff

end

namespace Value

/-- The readings of a text, in the order in which they are tried: a number, a timestamp, a plain date. -/
def placeReaders : List (String → Option Binary64) :=
  [fun s => numericText? s.toList,
   fun s => (Instant.readTimestamp? (Text.trim s.toList)).map millisNumber,
   fun s => (Instant.readDate? (Text.trim s.toList)).map millisNumber]

/-- The number by which a value is compared if its text is read in that order, or why it has none. -/
def comparableBy (readers : List (String → Option Binary64)) (value : Value) : Except EvalError Binary64 :=
  match value with
  | .string s =>
    match readers.findSome? (· s) with
    | some x => .ok x
    | none => .error (.notComparable s!"{value.text} ({value.typeName})")
  | _ => value.comparable

variable {s : String}

theorem numericText?_of_beginsDated (h : Instant.BeginsDated (Text.trim s.toList)) : numericText? s.toList = none := by
  rw [numericText?, Numeral.read?_of_beginsDated h, Option.map_none]

/-- **One reading.** Of any two readers one refuses the text. -/
theorem placeReaders_exclusive (s : String) :
    placeReaders.Pairwise fun read other => read s = none ∨ other s = none := by
  have timestamp : numericText? s.toList = none ∨ Instant.readTimestamp? (Text.trim s.toList) = none := by
    cases read : Instant.readTimestamp? (Text.trim s.toList) with
    | none => exact .inr rfl
    | some t => exact .inl (numericText?_of_beginsDated (Instant.beginsDated_of_readTimestamp? read))
  have date : numericText? s.toList = none ∨ Instant.readDate? (Text.trim s.toList) = none := by
    cases read : Instant.readDate? (Text.trim s.toList) with
    | none => exact .inr rfl
    | some t => exact .inl (numericText?_of_beginsDated (Instant.beginsDated_of_readDate? read))
  have dates : Instant.readTimestamp? (Text.trim s.toList) = none ∨ Instant.readDate? (Text.trim s.toList) = none := by
    cases read : Instant.readTimestamp? (Text.trim s.toList) with
    | none => exact .inl rfl
    | some t => exact .inr (Instant.readDate?_of_readTimestamp? read)
  simp [placeReaders, timestamp, date, dates]

theorem comparable?_string (s : String) : (string s).comparable? = placeReaders.findSome? (· s) := by
  rw [comparable?, dateText?]
  simp only [placeReaders, List.findSome?_cons, List.findSome?_nil]
  cases numericText? s.toList with
  | some x => rfl
  | none =>
    cases Instant.readTimestamp? (Text.trim s.toList) with
    | some t => rfl
    | none => cases Instant.readDate? (Text.trim s.toList) <;> rfl

theorem comparableBy_eq {readers : List (String → Option Binary64)} (same : readers.Perm placeReaders) (v : Value) :
    v.comparableBy readers = v.comparable := by
  cases v with
  | string s =>
    rw [comparable, comparable?_string, ← findSome?_eq_of_perm same (placeReaders_exclusive s)]
    rfl
  | _ => rfl

/-- **A text has one reading at most.** Of any two of the readings of a text as a number, as a timestamp and as a
plain date one is refused. So every value is compared by the same number, or refused for the same reason, in
whatever order the readings are tried; and the text of a date is no number, but is compared by its milliseconds. -/
theorem readings_exclusive :
    (∀ s : String, placeReaders.Pairwise fun read other => read s = none ∨ other s = none) ∧
      (∀ readers, readers.Perm placeReaders → ∀ v : Value, v.comparableBy readers = v.comparable) ∧
      ∀ (s : String) (t : Instant),
        Instant.readTimestamp? (Text.trim s.toList) = some t ∨ Instant.readDate? (Text.trim s.toList) = some t →
          numericText? s.toList = none ∧ (string s).comparable = .ok (millisNumber t) := by
  refine ⟨placeReaders_exclusive, fun readers => comparableBy_eq, fun s t dated => ?_⟩
  have noNumber : numericText? s.toList = none := by
    refine numericText?_of_beginsDated ?_
    rcases dated with read | read
    · exact Instant.beginsDated_of_readTimestamp? read
    · exact Instant.beginsDated_of_readDate? read
  have place : (string s).comparable? = some (millisNumber t) := by
    rw [comparable?_string, findSome?_eq_some_iff_of_exclusive (placeReaders_exclusive s)]
    rcases dated with read | read
    · exact ⟨_, .tail _ (.head _), congrArg (Option.map millisNumber) read⟩
    · exact ⟨_, .tail _ (.tail _ (.head _)), congrArg (Option.map millisNumber) read⟩
  refine ⟨noNumber, ?_⟩
  rw [comparable, place]

/-- A date before the year 0 begins like a negative number. A number with a sign behind its `e` is one also if its
text is tried as a date first. -/
theorem readings_exclusive_signed :
    let date := " -12-3-04\n"
    let number := "-12e-3"
    numericText? date.toList = none ∧ (string date).comparable = .ok (millisNumber (.ofDate ⟨-12, 3, 4⟩)) ∧
      (string number).comparableBy placeReaders.reverse = .ok (.ofScaled true 12 (-3)) := by
  intro date number
  obtain ⟨-, anyOrder, dated⟩ := readings_exclusive
  have read : Instant.readDate? (Text.trim date.toList) = some (.ofDate ⟨-12, 3, 4⟩) := by decide +kernel
  have place : (string number).comparable = .ok (.ofScaled true 12 (-3)) := by decide +kernel
  obtain ⟨noNumber, compared⟩ := dated date _ (.inr read)
  exact ⟨noNumber, compared, (anyOrder _ (List.reverse_perm placeReaders) (string number)).trans place⟩

end Value
end RecordRules
