/-
# Instants that their texts give back

The exact text of an instant is read as the instant again as long as its year, in universal
time, has four digits. Other years are written with a sign, and no timestamp begins with one.

A date and a time are written digit by digit in the widths in which they are read
(`digits?_padded`), and the fraction of a second in as many digits as it needs. A leap second is
written as second 60, and read so; it has to be the last second of its minute for that, which
it is if it comes from a timestamp, as no offset has seconds (`Instant.Given.leap`). The text with
three digits gives back the millisecond in any case (`Instant.readTimestamp?_text_millis`): what
goes on behind a second that is not the last one is counted to the next.

Key definitions: `Instant.year`, `Instant.HasFourDigitYear`, `Instant.Given`. Key theorem:
`Instant.Given.readTimestamp?_text_iff`.
-/
import RecordRules.Instant.Read
import RecordRules.Instant.Text
import RecordRules.Proofs.Calendar

namespace RecordRules

/-! ### Digits of a fixed width -/

section
variable {width n : Nat}

theorem length_padded (h : n < 10 ^ width) (pos : 0 < width) : (padded width n).length = width := by
  have short : (Nat.toDigits 10 n).length ≤ width := Nat.toDigits_length 10 n width pos h
  rw [padded, List.length_append, List.length_replicate, Nat.sub_add_cancel short]

theorem all_isDigit_padded (width n : Nat) : (padded width n).all Char.isDigit = true := by
  rw [List.all_eq_true]
  intro c mem
  rcases List.mem_append.mp mem with mem | mem
  · rw [List.eq_of_mem_replicate mem]
    rfl
  · exact Nat.isDigit_of_mem_toDigits (by decide) (by decide) mem

theorem ofDigitChars_padded (width n : Nat) : Nat.ofDigitChars 10 (padded width n) 0 = n := by
  rw [padded, Nat.ofDigitChars_append, Nat.ofDigitChars_replicate_zero, Nat.mul_zero,
    Nat.ofDigitChars_toDigits (by decide) (by decide)]

end

namespace Instant

section
variable {width n : Nat} {rest : List Char}

/-- **Digits.** A number is read from its digits in that width. -/
theorem digits?_padded (h : n < 10 ^ width) (pos : 0 < width) :
    digits? width (padded width n ++ rest) = some (n, rest) := by
  have length := length_padded h pos
  have front : (padded width n ++ rest).take width = padded width n := by
    rw [List.take_append_of_le_length (Nat.le_of_eq length.symm), List.take_of_length_le (Nat.le_of_eq length)]
  have behind : (padded width n ++ rest).drop width = rest := by
    rw [List.drop_append, List.drop_of_length_le (Nat.le_of_eq length), length, Nat.sub_self]
    rfl
  simp only [digits?, front, behind, length, all_isDigit_padded, ofDigitChars_padded, and_self, if_true]

theorem skip?_cons (c : Char) (rest : List Char) : skip? c (c :: rest) = some rest := if_pos rfl

theorem nanosOf_padded {scale : Nat} (h : n < 10 ^ width) (pos : 0 < width) (split : width + scale = 9) :
    nanosOf (padded width n) = n * 10 ^ scale := by
  have length := length_padded h pos
  have whole : (padded width n).take 9 = padded width n := List.take_of_length_le (by omega)
  rw [nanosOf, whole, ofDigitChars_padded, length]
  congr 2
  omega

/-! ### Parts of a timestamp -/

theorem readFullDate?_dateText {date : Date} (valid : date.isValid = true) (low : 0 ≤ date.year)
    (high : date.year ≤ 9999) : readFullDate? (dateText date ++ rest) = some (date, rest) := by
  obtain ⟨month, day⟩ := Date.lt_hundred_of_isValid valid
  have year : date.year.toNat < 10 ^ 4 := by omega
  have same : (date.year.toNat : Int) = date.year := Int.toNat_of_nonneg low
  rw [dateText, yearText, if_pos ⟨low, high⟩]
  simp only [readFullDate?, List.append_assoc, List.cons_append, digits?_padded year, digits?_padded month,
    digits?_padded day, skip?_cons, Option.bind_eq_bind, Option.bind_some, Nat.zero_lt_succ, same, valid, if_true]

/-- A year that does not have four digits is written with a sign. -/
theorem readFullDate?_of_signed {date : Date} (signed : ¬ (0 ≤ date.year ∧ date.year ≤ 9999)) :
    readFullDate? (dateText date ++ rest) = none := by
  have none (sign : Char) (noDigit : sign.isDigit = false) (cs : List Char) : digits? 4 (sign :: cs) = none := by
    simp [digits?, noDigit]
  rw [dateText, yearText, if_neg signed, readFullDate?]
  split
  · simp only [List.cons_append, none '-' rfl, Option.bind_eq_bind, Option.bind_none]
  · simp only [List.cons_append, none '+' rfl, Option.bind_eq_bind, Option.bind_none]

theorem readTime?_padded {hour minute second : Nat} (hhour : hour ≤ 23) (hminute : minute ≤ 59)
    (hsecond : second ≤ 60) :
    readTime? (padded 2 hour ++ ':' :: (padded 2 minute ++ ':' :: (padded 2 second ++ rest))) =
      some (hour * 3600 + minute * 60 + min second 59, decide (second = 60), rest) := by
  have hours : hour < 10 ^ 2 := by omega
  have minutes : minute < 10 ^ 2 := by omega
  have seconds : second < 10 ^ 2 := by omega
  simp only [readTime?, digits?_padded hours, digits?_padded minutes, digits?_padded seconds, skip?_cons,
    Option.bind_eq_bind, Option.bind_some, Nat.zero_lt_succ, hhour, hminute, hsecond, and_self, if_true]

/-- Digits behind a point, up to the end. -/
theorem readFraction?_digits {digits : List Char} {nanos : Nat} (some : digits ≠ [])
    (all : digits.all Char.isDigit = true) (value : nanosOf digits = nanos) (lt : nanos < 10 ^ 9) :
    readFraction? ('.' :: digits ++ ['Z']) = .some (⟨nanos, lt⟩, ['Z']) := by
  have each : ∀ c ∈ digits, c.isDigit = true := List.all_eq_true.mp all
  have front : (digits ++ ['Z']).takeWhile Char.isDigit = digits := by
    rw [List.takeWhile_append_of_pos each]
    exact List.append_nil digits
  have behind : (digits ++ ['Z']).dropWhile Char.isDigit = ['Z'] := by
    rw [List.dropWhile_append_of_pos each]
    rfl
  have nonempty : digits.isEmpty = false := List.isEmpty_eq_false_iff.mpr some
  simp only [readFraction?, List.cons_append, front, behind, nonempty, value, Bool.false_eq_true, if_false]

theorem readFraction?_padded (scale : Nat) {width n : Nat} (small : n < 10 ^ width) (pos : 0 < width)
    (split : width + scale = 9) (lt : n * 10 ^ scale < 10 ^ 9) :
    readFraction? ('.' :: padded width n ++ ['Z']) = some (⟨n * 10 ^ scale, lt⟩, ['Z']) := by
  refine readFraction?_digits ?_ (all_isDigit_padded width n) (nanosOf_padded small pos split) lt
  rw [← List.length_pos_iff, length_padded small pos]
  exact pos

theorem readFraction?_fractionText {nanos : Nat} (lt : nanos < 10 ^ 9) :
    readFraction? (fractionText .exact nanos ++ ['Z']) = some (⟨nanos, lt⟩, ['Z']) := by
  have written (scale : Nat) {width n : Nat} (small : n < 10 ^ width) (pos : 0 < width) (split : width + scale = 9)
      (value : n * 10 ^ scale = nanos) :
      readFraction? ('.' :: padded width n ++ ['Z']) = some (⟨nanos, lt⟩, ['Z']) := by
    subst value
    exact readFraction?_padded scale small pos split lt
  unfold fractionText
  dsimp only
  split_ifs with zero millis micros
  · subst zero
    rfl
  · exact written 6 (by omega) (by decide) rfl (by omega)
  · exact written 3 (by omega) (by decide) rfl (by omega)
  · exact written 0 lt (by decide) rfl (by omega)

theorem readOffset?_zero : readOffset? ['Z'] = some 0 := rfl

end

/-! ### Instants that come from texts and clocks -/

/-- The year in universal time. -/
def year (t : Instant) : Int := (Date.ofDays t.days).year

/-- The year is one from 0 to 9999. -/
def HasFourDigitYear (t : Instant) : Prop := 0 ≤ t.year ∧ t.year ≤ 9999

instance (t : Instant) : Decidable t.HasFourDigitYear := inferInstanceAs (Decidable (_ ∧ _))

/-- The instant was read from a timestamp or counted in milliseconds. -/
inductive Given : Instant → Prop where
  | timestamp {cs t} : readTimestamp? cs = some t → Given t
  | millis (count : Int) : Given (ofMillis count)

section
variable {cs rest : List Char} {t : Instant}

/-- Second 60 is the continuation of second 59. -/
theorem mod_of_readTime? {ofDay : Nat} (h : readTime? cs = some (ofDay, true, rest)) : ofDay % 60 = 59 := by
  simp only [readTime?, Option.bind_eq_bind, Option.bind_eq_some_iff] at h
  obtain ⟨⟨hour, _⟩, _, _, _, ⟨minute, _⟩, _, _, _, ⟨second, _⟩, _, h⟩ := h
  split at h
  · simp only [Option.some.injEq, Prod.mk.injEq, decide_eq_true_eq] at h
    omega
  · cases h

/-- No offset has seconds. -/
theorem mod_of_readOffset? {offset : Int} (h : readOffset? cs = some offset) : offset % 60 = 0 := by
  cases cs with
  | nil => cases h
  | cons sign cs =>
    rw [readOffset?] at h
    split at h
    · split at h <;> cases h
      rfl
    · split at h
      · obtain ⟨⟨hour, _⟩, _, h⟩ := Option.bind_eq_some_iff.mp h
        obtain ⟨_, _, h⟩ := Option.bind_eq_some_iff.mp h
        obtain ⟨⟨minute, _⟩, _, h⟩ := Option.bind_eq_some_iff.mp h
        dsimp only at h
        split_ifs at h <;> cases h <;> omega
      · cases h

/-- **Leap seconds end their minutes.** -/
theorem Given.leap (given : t.Given) (leap : 10 ^ 9 ≤ t.nanos) : t.seconds % 60 = 59 := by
  cases given with
  | millis count =>
    simp only [ofMillis] at leap
    omega
  | timestamp read =>
    obtain ⟨⟨date, cs⟩, _, read⟩ := Option.bind_eq_some_iff.mp read
    cases cs with
    | nil => cases read
    | cons separator cs =>
      dsimp only [Option.bind_eq_bind, Option.bind_some] at read
      split at read
      · obtain ⟨⟨ofDay, leapSecond, _⟩, time, read⟩ := Option.bind_eq_some_iff.mp read
        obtain ⟨⟨⟨nanos, small⟩, _⟩, _, read⟩ := Option.bind_eq_some_iff.mp read
        obtain ⟨offset, zone, same⟩ := Option.bind_eq_some_iff.mp read
        cases same
        cases leapSecond with
        | false => exact absurd leap (Nat.not_le_of_lt (by simpa using small))
        | true =>
          have ofMinute := mod_of_readTime? time
          have minutes := mod_of_readOffset? zone
          dsimp only
          omega
      · cases read

theorem eq_of_parts {u : Instant} (seconds : t.seconds = u.seconds) (nanos : t.nanos = u.nanos) : t = u := by
  cases t
  cases u
  cases seconds
  cases nanos
  rfl

/-- The parts of a timestamp in universal time, digit by digit, are read, and of the fraction what is written. -/
theorem readTimestamp?_parts {date : Date} {hour minute second nanos kept : Nat} {fraction : Fraction}
    (valid : date.isValid = true) (year : 0 ≤ date.year ∧ date.year ≤ 9999) (hhour : hour ≤ 23)
    (hminute : minute ≤ 59) (hsecond : second ≤ 60) (hkept : kept < 10 ^ 9)
    (written : readFraction? (fractionText fraction nanos ++ ['Z']) = some (⟨kept, hkept⟩, ['Z'])) :
    ∃ read, readTimestamp? (dateText date ++ 'T' :: (padded 2 hour ++ ':' :: (padded 2 minute ++
        ':' :: (padded 2 second ++ (fractionText fraction nanos ++ ['Z']))))) = some read ∧
      read.seconds = date.toDays * 86400 + (hour * 3600 + minute * 60 + min second 59 : Nat) ∧
      read.nanos = kept + if second = 60 then 10 ^ 9 else 0 := by
  rw [readTimestamp?, readFullDate?_dateText valid year.1 year.2]
  simp only [Option.bind_eq_bind, Option.bind_some, true_or, if_true, readTime?_padded hhour hminute hsecond,
    written, readOffset?_zero]
  refine ⟨_, rfl, Int.sub_zero _, ?_⟩
  simp only [decide_eq_true_eq]

theorem text_parts (fraction : Fraction) (t : Instant) : t.text fraction = dateText (Date.ofDays t.days) ++
    'T' :: (padded 2 (t.secondOfDay / 3600) ++ ':' :: (padded 2 (t.secondOfDay / 60 % 60) ++
      ':' :: (padded 2 (t.secondOfDay % 60 + t.nanos / 10 ^ 9) ++
        (fractionText fraction (t.nanos % 10 ^ 9) ++ ['Z'])))) := by
  simp only [text, List.append_assoc, List.cons_append]

/-- The text of an instant of a year of four digits is read as the second that the instant counts to, where second
60 stands for what goes on behind second 59, and the part of the fraction that is written. -/
theorem readTimestamp?_text_parts {fraction : Fraction} {kept : Nat} (year : t.HasFourDigitYear) (hkept : kept < 10 ^ 9)
    (written : readFraction? (fractionText fraction (t.nanos % 10 ^ 9) ++ ['Z']) = some (⟨kept, hkept⟩, ['Z'])) :
    ∃ read, readTimestamp? (t.text fraction) = some read ∧
      if t.seconds % 60 + (t.nanos / 10 ^ 9 : Nat) = 60 then read.seconds = t.seconds ∧ read.nanos = kept + 10 ^ 9
      else read.seconds = t.seconds + (t.nanos / 10 ^ 9 : Nat) ∧ read.nanos = kept := by
  have ofDay : (t.secondOfDay : Int) = t.seconds % 86400 := by
    unfold secondOfDay
    omega
  have days : (Date.ofDays t.days).toDays = t.seconds / 86400 := Date.toDays_ofDays t.days
  have bound := t.nanos_lt
  obtain ⟨read, parsed, seconds, nanos⟩ := readTimestamp?_parts (Date.isValid_ofDays t.days) year
    (show t.secondOfDay / 3600 ≤ 23 by omega) (show t.secondOfDay / 60 % 60 ≤ 59 by omega)
    (show t.secondOfDay % 60 + t.nanos / 10 ^ 9 ≤ 60 by omega) hkept written
  refine ⟨read, by rw [text_parts, parsed], ?_⟩
  rw [days] at seconds
  split_ifs at nanos ⊢ <;> omega

/-- The text of an instant of a year of four digits is read as the instant, if a second that goes on into a leap
second is the last one of its minute. -/
theorem readTimestamp?_text (year : t.HasFourDigitYear) (leap : 10 ^ 9 ≤ t.nanos → t.seconds % 60 = 59) :
    readTimestamp? (t.text .exact) = some t := by
  have bound := t.nanos_lt
  obtain ⟨read, parsed, parts⟩ := readTimestamp?_text_parts year (Nat.mod_lt t.nanos (by decide))
    (readFraction?_fractionText (Nat.mod_lt t.nanos (by decide)))
  rw [parsed]
  refine congrArg some (eq_of_parts ?_ ?_) <;> split_ifs at parts <;> omega

/-- The text with three digits is read as an instant of the same millisecond. -/
theorem readTimestamp?_text_millis (year : t.HasFourDigitYear) :
    ∃ read, readTimestamp? (t.text .millis) = some read ∧ read.millis = t.millis := by
  have bound := t.nanos_lt
  have three : t.nanos % 10 ^ 9 / 10 ^ 6 < 10 ^ 3 := by omega
  have kept : t.nanos % 10 ^ 9 / 10 ^ 6 * 10 ^ 6 < 10 ^ 9 := by omega
  have written : readFraction? (fractionText .millis (t.nanos % 10 ^ 9) ++ ['Z']) = some (⟨_, kept⟩, ['Z']) :=
    readFraction?_padded 6 three (by decide) rfl kept
  obtain ⟨read, parsed, parts⟩ := readTimestamp?_text_parts year kept written
  refine ⟨read, parsed, ?_⟩
  unfold millis
  split_ifs at parts <;> omega

/-- **Texts give instants back.** The text of an instant is read as the instant if its year has four digits, and
else not at all. -/
theorem Given.readTimestamp?_text_iff (given : t.Given) :
    readTimestamp? (t.text .exact) = some t ↔ t.HasFourDigitYear := by
  by_cases four : t.HasFourDigitYear
  · exact iff_of_true (readTimestamp?_text four given.leap) four
  · refine iff_of_false ?_ four
    rw [text_parts, readTimestamp?, readFullDate?_of_signed four]
    nofun

end

end Instant
end RecordRules
