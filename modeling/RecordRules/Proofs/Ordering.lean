/-
# The order of values

Values that can be compared have a place on the line of numbers, and of those only the number
NaN has none (`Value.comparable?_eq_nan_iff`). A decimal is always read as a number, a date is
counted in milliseconds, and a text that is read as a number is a numeral: the words for NaN
and infinity have letters that no numeral has, and a text with such a letter is no number
(`numericText?_eq`). So of two values that are not NaN and can be compared exactly one comes
before the other, or both are at one place, and `>` is the opposite of `<=`.

Being at one place is being equal, as long as the values are of one kind. For numbers and
decimals that is how equality is defined. Dates are equal if their milliseconds are the same
integer, while the order sees the nearest binary64 number; whole numbers below 2^53 are exact
(`Binary64.units_rankOfRatio_one`), and the milliseconds of every year that dates have are
below that (`Instant.natAbs_millis_lt`), so no two of them are merged.

Key definitions: `isWordLetter`, `Instant.InCalendar`, `Value.Stands`. Key theorems:
`numericText?_eq`, `Binary64.eq_ofInt_iff`, `Instant.natAbs_millis_lt`, `Value.stands_iff`,
`Value.order_total_coherent`.
-/
import RecordRules.Proofs.Munching
import RecordRules.Proofs.Normalizing
import RecordRules.Proofs.Timestamps

namespace RecordRules

/-! ### Texts that are numbers -/

/-- A letter that no numeral has: any but the `e` of a power of ten. -/
def isWordLetter (c : Char) : Bool := c.isAlpha && c != 'e' && c != 'E'

theorem isDigit_of_isWordLetter {c : Char} (letter : isWordLetter c = true) : c.isDigit = false := by
  unfold isWordLetter Char.isAlpha Char.isUpper Char.isLower at letter
  unfold Char.isDigit
  simp only [Bool.and_eq_true, Bool.or_eq_true, decide_eq_true_eq, Bool.and_eq_false_iff, decide_eq_false_iff_not,
    UInt32.le_iff_toNat_le] at letter ⊢
  obtain ⟨⟨range, _⟩, _⟩ := letter
  simp at range ⊢
  omega

theorem ne_of_isWordLetter {c d : Char} (letter : isWordLetter c = true) (other : isWordLetter d = false) :
    c ≠ d := by
  rintro rfl
  rw [letter] at other
  cases other

namespace Numeral

section
variable {c : Char} {cs : List Char}

/-! No part of a numeral takes a letter away from the text behind it, and the last part refuses it. -/

theorem mem_splitSign (letter : isWordLetter c = true) (mem : c ∈ cs) : c ∈ (splitSign cs).2 := by
  unfold splitSign
  split
  · exact (List.mem_cons.mp mem).resolve_left (ne_of_isWordLetter letter rfl)
  · exact (List.mem_cons.mp mem).resolve_left (ne_of_isWordLetter letter rfl)
  · exact mem

theorem mem_of_mem_splitSign (mem : c ∈ (splitSign cs).2) : c ∈ cs := by
  unfold splitSign at mem
  split at mem
  · exact List.mem_cons_of_mem _ mem
  · exact List.mem_cons_of_mem _ mem
  · exact mem

theorem mem_splitDigits (letter : isWordLetter c = true) (mem : c ∈ cs) : c ∈ (splitDigits cs).2 := by
  have parts : cs.takeWhile Char.isDigit ++ cs.dropWhile Char.isDigit = cs := List.takeWhile_append_dropWhile
  rw [← parts] at mem
  refine (List.mem_append.mp mem).resolve_left fun front => ?_
  have digit : c.isDigit = true := List.mem_takeWhile_imp front
  rw [isDigit_of_isWordLetter letter] at digit
  cases digit

theorem mem_splitFraction (letter : isWordLetter c = true) (mem : c ∈ cs) : c ∈ (splitFraction cs).2 := by
  unfold splitFraction
  split
  · exact mem_splitDigits letter ((List.mem_cons.mp mem).resolve_left (ne_of_isWordLetter letter rfl))
  · exact mem

theorem readExponent?_of_letter (letter : isWordLetter c = true) (mem : c ∈ cs) : readExponent? cs = none := by
  cases cs with
  | nil => cases mem
  | cons mark cs =>
    rw [readExponent?]
    split
    · rename_i power
      have behind : c ∈ cs := by
        refine (List.mem_cons.mp mem).resolve_left (ne_of_isWordLetter letter ?_)
        rcases power with rfl | rfl <;> rfl
      have noDigits : (splitSign cs).2.all Char.isDigit = false :=
        List.all_eq_false.mpr ⟨c, mem_splitSign letter behind, by simp [isDigit_of_isWordLetter letter]⟩
      simp only [Text.natural?, noDigits, Bool.and_false, Bool.false_eq_true, if_false]
      rfl
    · rfl

/-- **Letters are in no numeral.** -/
theorem read?_of_letter (letter : isWordLetter c = true) (mem : c ∈ cs) : read? cs = none := by
  have power : c ∈ (splitFraction (splitDigits (splitSign cs).2).2).2 :=
    mem_splitFraction letter (mem_splitDigits letter (mem_splitSign letter mem))
  have none := readExponent?_of_letter letter power
  unfold read?
  simp only [none, Option.map_none, ite_self]

end

end Numeral

/-- Every word that names a number has an `n` in it. -/
theorem Binary64.readWord?_of_no_letter {cs : List Char} (plain : ∀ c ∈ cs, isWordLetter c = false) :
    readWord? cs = none := by
  have noN : 'n' ∉ (Numeral.splitSign cs).2.map Char.toLower := by
    intro mem
    obtain ⟨c, mem, lower⟩ := List.mem_map.mp mem
    have alpha : c.isAlpha = true := isAlpha_of_isLower_toLower (by rw [lower]; rfl)
    have noE : c ≠ 'e' ∧ c ≠ 'E' := by
      constructor <;> rintro rfl <;> cases lower
    have letter := plain c (Numeral.mem_of_mem_splitSign mem)
    simp [isWordLetter, alpha, noE] at letter
  have other {word : String} (named : 'n' ∈ word.toList) :
      String.ofList ((Numeral.splitSign cs).2.map Char.toLower) ≠ word := by
    rintro rfl
    rw [String.toList_ofList] at named
    exact noN named
  unfold readWord?
  dsimp only
  split
  · rename_i named
    exact absurd named (other (by decide))
  · rename_i named
    exact absurd named (other (by decide))
  · rename_i named
    exact absurd named (other (by decide))
  · rfl

/-- **Numbers in texts.** A text is read as any number is, once it is found to have no letter of a word. -/
theorem numericText?_eq (cs : List Char) : numericText? cs =
    if (Text.trim cs).any isWordLetter then none else Binary64.read? (Text.trim cs) := by
  unfold numericText?
  split
  · rename_i letters
    obtain ⟨c, mem, letter⟩ := List.any_eq_true.mp letters
    rw [Numeral.read?_of_letter letter mem, Option.map_none]
  · rename_i plain
    have plain : ∀ c ∈ Text.trim cs, isWordLetter c = false := by simpa using plain
    unfold Binary64.read?
    cases Numeral.read? (Text.trim cs) with
    | some n => rfl
    | none => exact (Binary64.readWord?_of_no_letter plain).symm

/-! ### Whole numbers -/

namespace Binary64

/-- A count that fits in 53 bits is a magnitude: it is shifted to 53 bits and doubled back. -/
theorem exists_units {n : Nat} (h : n < 2 ^ 53) : ∃ rank, rank < infinityRank ∧ units rank = n * 2 ^ 1074 := by
  by_cases zero : n = 0
  · exact ⟨0, by decide, by rw [zero, Nat.zero_mul]; rfl⟩
  · have short : Nat.log2 n < 53 := (Nat.log2_lt zero).mpr h
    obtain ⟨shift, whole⟩ : ∃ shift, Nat.log2 n + shift = 52 := ⟨52 - Nat.log2 n, by omega⟩
    have low : 2 ^ 52 ≤ n * 2 ^ shift := by
      rw [← whole, Nat.pow_add]
      exact Nat.mul_le_mul_right _ (Nat.log2_self_le zero)
    have high : n * 2 ^ shift < 2 ^ 53 := by
      calc n * 2 ^ shift
          < 2 ^ (Nat.log2 n + 1) * 2 ^ shift :=
            Nat.mul_lt_mul_of_pos_right Nat.lt_log2_self (Nat.two_pow_pos shift)
        _ = 2 ^ 53 := by rw [← Nat.pow_add, Nat.add_right_comm, whole]
    have doubled : doublings ((1074 - shift) * 2 ^ 52 + n * 2 ^ shift) = 1074 - shift := by
      unfold doublings
      omega
    refine ⟨(1074 - shift) * 2 ^ 52 + n * 2 ^ shift, ?_, ?_⟩
    · unfold infinityRank
      omega
    · rw [units, doubled, Nat.add_sub_cancel_left, Nat.mul_assoc, ← Nat.pow_add]
      congr 2
      omega

/-- **Whole numbers are exact.** The number nearest to a count that fits in 53 bits is that count. -/
theorem units_rankOfRatio_one {n : Nat} (h : n < 2 ^ 53) : units (rankOfRatio n 1) = n * 2 ^ 1074 := by
  obtain ⟨rank, finite, exact⟩ := exists_units h
  have same := rankOfRatio_units finite
  have pos (n : Nat) : 0 < 2 ^ n := Nat.two_pow_pos n
  have pos := pos 1074
  generalize 2 ^ 1074 = one at exact same pos ⊢
  have scaled := @rankOfRatio_scale n 1 one pos
  rw [← exact, Nat.one_mul, same] at scaled
  rw [← scaled, exact]

theorem rankOfRatio_one_inj {m n : Nat} (hm : m < 2 ^ 53) (hn : n < 2 ^ 53)
    (same : rankOfRatio m 1 = rankOfRatio n 1) : m = n := by
  have left := units_rankOfRatio_one hm
  have right := units_rankOfRatio_one hn
  have pos (n : Nat) : 0 < 2 ^ n := Nat.two_pow_pos n
  have pos := pos 1074
  generalize 2 ^ 1074 = one at left right pos
  refine Nat.eq_of_mul_eq_mul_right pos ?_
  rw [← left, ← right, same]

theorem rankOfRatio_zero : rankOfRatio 0 1 = 0 := by
  refine rankOfRatio_of_lt ?_
  rw [Nat.zero_mul]
  decide

theorem key_ofInt (n : Int) :
    (ofInt n).key = some (if n < 0 then -(rankOfRatio n.natAbs 1 : Int) else rankOfRatio n.natAbs 1) := by
  have last : rankOfRatio n.natAbs 1 ≤ infinityRank := Nat.min_le_left _ _
  simp only [ofInt, ofRank, key, Nat.min_eq_left last, decide_eq_true_eq]

/-- **Integers are kept apart.** -/
theorem eq_ofInt_iff {m n : Int} (hm : m.natAbs < 2 ^ 53) (hn : n.natAbs < 2 ^ 53) :
    (ofInt m).eq (ofInt n) = true ↔ m = n := by
  constructor
  · intro equal
    obtain ⟨place, left, right⟩ := eq_iff.mp equal
    rw [key_ofInt, ← right, key_ofInt, Option.some_inj] at left
    -- a negative integer is not at the place of zero, so signs cannot be confused
    have positive {k : Int} (hk : k.natAbs < 2 ^ 53) (negative : k < 0) : 0 < rankOfRatio k.natAbs 1 := by
      refine Nat.pos_of_ne_zero fun zero => ?_
      have := rankOfRatio_one_inj hk (by decide) (zero.trans rankOfRatio_zero.symm)
      omega
    have positive_m := positive hm
    have positive_n := positive hn
    have inj := rankOfRatio_one_inj hm hn
    split_ifs at left <;> omega
  · rintro rfl
    exact eq_self_iff.mpr rfl

theorem eq_iff_le_le {x y : Binary64} : x.eq y = true ↔ x.le y = true ∧ y.le x = true := by
  unfold eq le related
  cases x.key <;> cases y.key <;> simp [Int.le_antisymm_iff]

theorem exists_key {x : Binary64} (h : x ≠ nan) : ∃ place, x.key = some place := by
  cases x with
  | nan => exact absurd rfl h
  | ranked => exact ⟨_, rfl⟩

end Binary64

/-! ### Dates -/

namespace Instant

/-- The year, in universal time, is one that dates have. -/
def InCalendar (t : Instant) : Prop := firstYear ≤ t.year ∧ t.year ≤ lastYear

instance (t : Instant) : Decidable t.InCalendar := inferInstanceAs (Decidable (_ ∧ _))

/-- **Milliseconds are exact.** Those of all years that dates have fit in 53 bits. -/
theorem natAbs_millis_lt {t : Instant} (h : t.InCalendar) : t.millis.natAbs < 2 ^ 53 := by
  obtain ⟨year, rest, date, inside, count⟩ := Date.ofDays_parts t.days
  have same : t.year = year := by rw [Instant.year, date]
  have short : rest < 366 := by
    rw [Date.sum_monthLengths] at inside
    split at inside <;> omega
  obtain ⟨low, high⟩ := h
  rw [same] at low high
  have bound := t.nanos_lt
  have days : t.days = t.seconds / 86400 := rfl
  have epoch : Date.epochDays = 719162 := rfl
  simp only [Date.daysBeforeYear] at count
  simp only [firstYear, lastYear] at low high
  unfold millis
  omega

end Instant

namespace Value

theorem eq_millisNumber_iff {t u : Instant} (ht : t.InCalendar) (hu : u.InCalendar) :
    (millisNumber t).eq (millisNumber u) = true ↔ t.millis = u.millis :=
  Binary64.eq_ofInt_iff (Instant.natAbs_millis_lt ht) (Instant.natAbs_millis_lt hu)

/-! ### Values with a place -/

/-- **Only NaN is NaN.** -/
theorem comparable?_eq_nan_iff (v : Value) : v.comparable? = some .nan ↔ v = .number .nan := by
  cases v with
  | number x => simp [comparable?]
  | decimal d => simp [comparable?, d.toBinary64_ne_nan]
  | date t => exact iff_of_false nofun nofun
  | string s =>
    refine iff_of_false ?_ nofun
    rw [comparable?, Option.or_eq_some_iff]
    rintro (numeral | ⟨_, date⟩)
    · obtain ⟨n, _, isNaN⟩ := Option.map_eq_some_iff.mp numeral
      cases isNaN
    · obtain ⟨t, _, isNaN⟩ := Option.map_eq_some_iff.mp date
      cases isNaN
  | _ => exact iff_of_false nofun nofun

theorem comparable_eq_ok_iff {v : Value} {x : Binary64} : v.comparable = .ok x ↔ v.comparable? = some x := by
  rw [← toOption_comparable, toOption_eq_some_iff]

/-- How the first value stands to the second: before it, behind it, or at one place with it, as `<` and `<=`
have it. -/
def Stands : Ordering → Value → Value → Prop
  | .lt, a, b => Comparison.less.apply a b = .ok true
  | .gt, a, b => Comparison.less.apply b a = .ok true
  | .eq, a, b => Comparison.lessOrEqual.apply a b = .ok true ∧ Comparison.lessOrEqual.apply b a = .ok true

/-- The value is a number or a decimal. -/
def IsNumeric : Value → Prop
  | .number _ | .decimal _ => True
  | _ => False

section
variable {a b : Value} {x y : Binary64}

theorem stands_eq_iff (ha : a.comparable? = some x) (hb : b.comparable? = some y) :
    Stands .eq a b ↔ x.eq y = true := by
  simp only [Stands, Comparison.apply_eq_ok_iff, Comparison.answer?, ha, hb, Option.map₂_some_some, Option.some_inj,
    Binary64.eq_iff_le_le]

/-- **Places decide.** Two values stand to each other as their places do. -/
theorem stands_iff (ha : a.comparable? = some x) (hb : b.comparable? = some y) {i j : Int} (hx : x.key = some i)
    (hy : y.key = some j) (side : Ordering) : Stands side a b ↔ compare i j = side := by
  cases side with
  | lt =>
    rw [compare_lt_iff_lt]
    simp [Stands, Comparison.apply_eq_ok_iff, Comparison.answer?, ha, hb, Binary64.lt, Binary64.related, hx, hy]
  | gt =>
    rw [compare_gt_iff_gt]
    simp [Stands, Comparison.apply_eq_ok_iff, Comparison.answer?, ha, hb, Binary64.lt, Binary64.related, hx, hy]
  | eq =>
    rw [compare_eq_iff_eq, stands_eq_iff ha hb]
    simp [Binary64.eq, Binary64.related, hx, hy]

/-- `>` says the opposite of `<=`. -/
theorem greater_opposite (ha : a.comparable? = some x) (hb : b.comparable? = some y) {i j : Int}
    (hx : x.key = some i) (hy : y.key = some j) : ∃ answer, Comparison.lessOrEqual.apply a b = .ok answer ∧
      Comparison.greater.apply a b = .ok !answer := by
  have opposite : y.lt x = !x.le y := by
    simp only [Binary64.lt, Binary64.le, Binary64.related, hx, hy]
    rw [← decide_not, decide_eq_decide, Int.not_le]
  refine ⟨x.le y, ?_, ?_⟩
  · rw [Comparison.apply_eq_ok_iff, Comparison.answer?, ha, hb, Option.map₂_some_some]
  · rw [Comparison.apply_eq_ok_iff, Comparison.answer?, ha, hb, Option.map₂_some_some, opposite]

theorem deepEqual_iff_stands_of_numeric (ha : a.IsNumeric) (hb : b.IsNumeric) :
    a.deepEqual b = true ↔ Stands .eq a b := by
  cases a with
  | number x =>
    cases b with
    | number y => exact (stands_eq_iff rfl rfl).symm
    | decimal e => exact (stands_eq_iff rfl rfl).symm
    | _ => cases hb
  | decimal d =>
    cases b with
    | number y => exact (stands_eq_iff rfl rfl).symm
    | decimal e => exact (stands_eq_iff rfl rfl).symm
    | _ => cases hb
  | _ => cases ha

theorem deepEqual_iff_stands_of_dates {t u : Instant} (ht : t.InCalendar) (hu : u.InCalendar) :
    (date t).deepEqual (date u) = true ↔ Stands .eq (date t) (date u) := by
  rw [stands_eq_iff rfl rfl, eq_millisNumber_iff ht hu, deepEqual, beq_iff_eq]

end

/-- **A total order, coherent with equality.** Only the number NaN is compared as NaN; a text never is, for it is
read as a number only if it has no letter of a word. Of two values that are not NaN and can be compared, exactly one
comes before the other or both are at one place, and `>` is the opposite of `<=`. Numbers and decimals are equal
exactly if they are at one place, and so are dates, whose milliseconds are exact as numbers. -/
theorem order_total_coherent :
    (∀ v : Value, v.comparable = .ok .nan ↔ v = .number .nan) ∧
      (∀ s : String, numericText? s.toList =
        if (Text.trim s.toList).any isWordLetter then none else Binary64.read? (Text.trim s.toList)) ∧
      (∀ (a b : Value) (x y : Binary64), a ≠ .number .nan → b ≠ .number .nan →
        a.comparable = .ok x → b.comparable = .ok y →
          x ≠ .nan ∧ y ≠ .nan ∧ (∃! side, Stands side a b) ∧
            ∃ answer, Comparison.lessOrEqual.apply a b = .ok answer ∧
              Comparison.greater.apply a b = .ok !answer) ∧
      (∀ a b : Value, a.IsNumeric → b.IsNumeric → (a.deepEqual b = true ↔ Stands .eq a b)) ∧
      ∀ t u : Instant, t.InCalendar → u.InCalendar →
        ((date t).deepEqual (date u) = true ↔ Stands .eq (date t) (date u)) ∧
          ((millisNumber t).eq (millisNumber u) = true ↔ t.millis = u.millis) ∧ t.millis.natAbs < 2 ^ 53 := by
  refine ⟨fun v => comparable_eq_ok_iff.trans (comparable?_eq_nan_iff v), fun s => numericText?_eq s.toList, ?_,
    fun a b => deepEqual_iff_stands_of_numeric, fun t u ht hu => ?_⟩
  · intro a b x y numberA numberB ha hb
    rw [comparable_eq_ok_iff] at ha hb
    have hx : x ≠ .nan := by
      rintro rfl
      exact numberA ((comparable?_eq_nan_iff a).mp ha)
    have hy : y ≠ .nan := by
      rintro rfl
      exact numberB ((comparable?_eq_nan_iff b).mp hb)
    obtain ⟨i, placeX⟩ := Binary64.exists_key hx
    obtain ⟨j, placeY⟩ := Binary64.exists_key hy
    have stands := stands_iff ha hb placeX placeY
    refine ⟨hx, hy, ⟨compare i j, (stands _).mpr rfl, fun side => ?_⟩, greater_opposite ha hb placeX placeY⟩
    exact fun h => ((stands side).mp h).symm
  · exact ⟨deepEqual_iff_stands_of_dates ht hu, eq_millisNumber_iff ht hu, Instant.natAbs_millis_lt ht⟩

/-- A text that overflows comes behind a decimal, which is at the place of its number. The last two milliseconds
of the last year, in a leap second, are two places. -/
theorem order_total_coherent_bounds :
    let a : Value := .string " 1e999 "
    let b : Value := .decimal ⟨"-0.50", by decide⟩
    let c : Value := .number (.ofBits 0xBFE0000000000000)
    let t : Instant := ⟨8210266876799, 1998999999, by decide⟩
    let u : Instant := ⟨8210266876799, 1999999999, by decide⟩
    (∃! side, Stands side a b) ∧ Stands .gt a b ∧ b.deepEqual c = true ∧ Stands .eq b c ∧
      t.InCalendar ∧ u.InCalendar ∧ ¬ Stands .eq (date t) (date u) ∧ t.millis.natAbs < 2 ^ 53 := by
  intro a b c t u
  obtain ⟨_, _, total, numeric, dates⟩ := order_total_coherent
  have ha : a.comparable = .ok (.infinity false) := by decide +kernel
  have hb : b.comparable = .ok (.ofBits 0xBFE0000000000000) := by decide +kernel
  have behind : Stands .gt a b := by
    show Comparison.less.apply b a = .ok true
    decide +kernel
  have half : b.deepEqual c = true := by decide +kernel
  have ht : t.InCalendar := by decide +kernel
  have hu : u.InCalendar := by decide +kernel
  have different : ¬ (date t).deepEqual (date u) = true := by decide +kernel
  obtain ⟨_, _, one, _⟩ := total a b _ _ nofun nofun ha hb
  obtain ⟨equal, _, exact⟩ := dates t u ht hu
  exact ⟨one, behind, half, (numeric b c trivial trivial).mp half, ht, hu, fun h => different (equal.mpr h), exact⟩

end Value
end RecordRules
