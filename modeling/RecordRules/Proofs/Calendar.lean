/-
# Days and dates

Every count of days is that of a date, and the date that a count is turned into is a day of
the calendar and has that count again (`Date.toDays_ofDays`, `Date.isValid_ofDays`).

A count is taken apart into cycles of 400 years, centuries, groups of four years and single
years, and what is left into months. The parts give the days before the year back
(`Date.daysBeforeYear_parts`) and say whether it is a leap year (`Date.isLeap_parts`), so what
is left is less than its length; and the months of a year are searched for the one in which
the rest lies (`Date.monthAndDay_spec`).

Key theorems: `Date.toDays_ofDays`, `Date.isValid_ofDays`.
-/
import Mathlib
import RecordRules.Instant.Calendar

namespace RecordRules.Date

/-! ### Months -/

/-- Of the lengths from the first month on, those before the month found and the days within it make up the days
that were searched for. -/
theorem monthAndDay_spec (first : Nat) {lengths : List Nat} {rest : Nat} (inside : rest < lengths.sum) :
    ∃ before day, monthAndDay first lengths rest = (first + before, day + 1) ∧ day < lengths.getD before 0 ∧
      (lengths.take before).sum + day = rest := by
  induction lengths generalizing first rest with
  | nil => exact absurd inside (Nat.not_lt_zero rest)
  | cons length lengths ih =>
    rw [monthAndDay]
    split
    · rename_i here
      exact ⟨0, rest, rfl, here, Nat.zero_add rest⟩
    · rw [List.sum_cons] at inside
      have later : rest - length < lengths.sum := by omega
      obtain ⟨before, day, found, short, total⟩ := ih (first + 1) later
      refine ⟨before + 1, day, ?_, short, ?_⟩
      · rw [found, Nat.add_right_comm, Nat.add_assoc]
      · rw [List.take_succ_cons, List.sum_cons]
        omega

theorem sum_monthLengths (leap : Bool) : (monthLengths leap).sum = if leap then 366 else 365 := by
  cases leap <;> rfl

theorem getD_monthLengths_le (leap : Bool) (before : Nat) : (monthLengths leap).getD before 0 ≤ 31 := by
  have each : ∀ length ∈ monthLengths leap, length ≤ 31 := by cases leap <;> decide
  rw [List.getD_eq_getElem?_getD]
  cases found : (monthLengths leap)[before]? with
  | none => exact Nat.zero_le 31
  | some length => exact each length (List.mem_of_getElem? found)

/-- Months and days have two digits. -/
theorem lt_hundred_of_isValid {date : Date} (valid : date.isValid = true) : date.month < 10 ^ 2 ∧ date.day < 10 ^ 2 := by
  simp only [isValid, Bool.and_eq_true, decide_eq_true_eq] at valid
  obtain ⟨⟨month, day⟩, last⟩ := valid
  have short := getD_monthLengths_le (isLeap date.year) (date.month - 1)
  have listed : date.month - 1 < 12 := by
    by_contra beyond
    have none : (monthLengths (isLeap date.year)).getD (date.month - 1) 0 = 0 :=
      List.getD_eq_default _ _ (Nat.le_of_not_lt beyond)
    omega
  omega

/-! ### Years -/

section
variable {cycle : Int} {century four single : Nat}

theorem daysBeforeYear_parts (hcentury : century ≤ 3) (hfour : four ≤ 24) (hsingle : single ≤ 3) :
    daysBeforeYear (cycle * 400 + (century * 100 + four * 4 + single : Nat) + 1) =
      cycle * 146097 + (century * 36524 + four * 1461 + single * 365 : Nat) := by
  simp only [daysBeforeYear]
  omega

theorem isLeap_parts (hcentury : century ≤ 3) (hfour : four ≤ 24) (hsingle : single ≤ 3) :
    isLeap (cycle * 400 + (century * 100 + four * 4 + single : Nat) + 1) = true ↔
      single = 3 ∧ (four = 24 → century = 3) := by
  simp only [isLeap, Bool.and_eq_true, Bool.or_eq_true, decide_eq_true_eq]
  omega

end

/-! ### Counts of days -/

/-- What is left of a count is within the year that it falls in, and makes up the count with the days before
the year. -/
theorem ofDays_parts (days : Int) : ∃ (year : Int) (rest : Nat),
    ofDays days = ⟨year, (monthAndDay 1 (monthLengths (isLeap year)) rest).1,
      (monthAndDay 1 (monthLengths (isLeap year)) rest).2⟩ ∧
    rest < (monthLengths (isLeap year)).sum ∧ daysBeforeYear year + rest - epochDays = days := by
  have epoch : epochDays = 719162 := rfl
  let inCycle := ((days + epochDays) % 146097).toNat
  let century := min 3 (inCycle / 36524)
  let inCentury := inCycle - century * 36524
  let four := inCentury / 1461
  let inFour := inCentury - four * 1461
  let single := min 3 (inFour / 365)
  have hcycle : inCycle < 146097 := by omega
  have hcentury : century ≤ 3 := Nat.min_le_left _ _
  have hfour : four ≤ 24 := by omega
  have hsingle : single ≤ 3 := Nat.min_le_left _ _
  refine ⟨(days + epochDays) / 146097 * 400 + (century * 100 + four * 4 + single : Nat) + 1, inFour - single * 365,
    rfl, ?_, ?_⟩
  · rw [sum_monthLengths]
    split
    · omega
    · rename_i common
      rw [isLeap_parts hcentury hfour hsingle] at common
      omega
  · rw [daysBeforeYear_parts hcentury hfour hsingle]
    omega

/-- **Dates are days of the calendar.** -/
theorem isValid_ofDays (days : Int) : (ofDays days).isValid = true := by
  obtain ⟨year, rest, date, inside, _⟩ := ofDays_parts days
  obtain ⟨before, day, found, short, _⟩ := monthAndDay_spec 1 inside
  rw [date, found]
  simp only [isValid, Bool.and_eq_true, decide_eq_true_eq, Nat.add_sub_cancel_left]
  exact ⟨⟨Nat.le_add_right 1 before, Nat.le_add_left 1 day⟩, short⟩

/-- **Dates keep the count.** -/
theorem toDays_ofDays (days : Int) : (ofDays days).toDays = days := by
  obtain ⟨year, rest, date, inside, count⟩ := ofDays_parts days
  obtain ⟨before, day, found, _, total⟩ := monthAndDay_spec 1 inside
  rw [date, found]
  simp only [toDays, Nat.add_sub_cancel_left, Nat.add_sub_cancel, ← List.sum_eq_foldl]
  omega

end RecordRules.Date
