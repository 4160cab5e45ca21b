/-
# Numbers read back from their digits

The canonical digits of a number are a run of digits and points, with a minus sign in
front of a negative one, and reading them finds the number again. Two numbers are not
found as they were: a negative zero comes back as zero, for it is written without a sign,
and NaN is found because its run is no number at all.

A finite magnitude is a whole number of units, and rounding the quotient of its units by
the units in one gives its rank (`rankOfRatio_units`), as the digits of its count of
doublings and the rest fit on its own grid. The two ways to settle a scaled number without
its power of ten are no exception to rounding (`rankOfScaled_eq`), so what is read depends
on the value of the digits alone, wherever the point stands.

Key definitions: `IsRun`, `reread`. Key theorems: `rankOfRatio_units`, `rankOfScaled_eq`,
`shortest_rank`, `reread_ranked`.
-/
import Mathlib
import RecordRules.Expr.Text
import RecordRules.Formula.Parse

namespace RecordRules

/-- A run ends before the first other character. -/
theorem takeWhile_run {p : Char → Bool} {run rest : List Char} (all : ∀ c ∈ run, p c = true)
    (stop : ∀ c ∈ rest.head?, p c = false) : (run ++ rest).takeWhile p = run := by
  rw [List.takeWhile_append_of_pos all]
  cases rest with
  | nil => simp
  | cons c rest => simp [stop c rfl]

theorem isNumberChar_of_isDigit {c : Char} (h : c.isDigit = true) : isNumberChar c = true := by
  rw [isNumberChar, h, Bool.true_or]

/-- The characters begin with a digit, or with a minus sign and a digit, and go on with digits and points. -/
structure IsRun (first : Char) (rest : List Char) : Prop where
  start : first.isDigit = true ∨ first = '-' ∧ rest.head?.any Char.isDigit = true
  all : ∀ c ∈ rest, isNumberChar c = true

namespace Binary64

/-! ### Magnitudes on their own grid -/

theorem doublings_mul_le (rank : Nat) : doublings rank * 2 ^ 52 ≤ rank := by
  unfold doublings
  omega

theorem log2_mul_two_pow {n d : Nat} (low : 2 ^ 52 ≤ n) (high : n < 2 ^ 53) :
    Nat.log2 (n * 2 ^ d) = 52 + d := by
  have pos : 0 < n * 2 ^ d := Nat.mul_pos (by omega) (Nat.two_pow_pos d)
  rw [Nat.log2_eq_iff pos.ne']
  constructor
  · rw [Nat.pow_add]
    exact Nat.mul_le_mul_right _ low
  · calc n * 2 ^ d < 2 ^ 53 * 2 ^ d := Nat.mul_lt_mul_of_pos_right high (Nat.two_pow_pos d)
      _ = 2 ^ (52 + d + 1) := by rw [← Nat.pow_add, Nat.add_right_comm]

theorem log2_units (rank : Nat) : Nat.log2 (units rank) - 52 = doublings rank := by
  by_cases small : rank < 2 ^ 53
  · have none : doublings rank = 0 := by unfold doublings; omega
    rw [units_of_lt small, none]
    by_cases zero : rank = 0
    · rw [zero, Nat.log2_zero]
    · have := (Nat.log2_lt zero).mpr small
      omega
  · have low : 2 ^ 52 ≤ rank - doublings rank * 2 ^ 52 := by unfold doublings; omega
    have high : rank - doublings rank * 2 ^ 52 < 2 ^ 53 := by unfold doublings; omega
    rw [units, log2_mul_two_pow low high, Nat.add_sub_cancel_left]

theorem roundHalfEven_mul {n den : Nat} (h : 0 < den) : roundHalfEven (n * den) den = n := by
  unfold roundHalfEven
  simp only [Nat.mul_div_cancel _ h, Nat.mul_mod_left, Nat.mul_zero, if_pos h]

/-- **Units read back.** Rounding keeps a magnitude that has a rank. -/
theorem rankOfRatio_units {rank : Nat} (h : rank < infinityRank) :
    rankOfRatio (units rank) (2 ^ (1074 : Nat)) = rank := by
  unfold rankOfRatio
  have pos (n : Nat) : 0 < 2 ^ n := Nat.two_pow_pos n
  have pos := pos 1074
  generalize 2 ^ (1074 : Nat) = one at pos ⊢
  have whole : units rank * one / one = units rank := Nat.mul_div_cancel _ pos
  have fine : units rank * one = (rank - doublings rank * 2 ^ 52) * (one * 2 ^ doublings rank) := by
    rw [units, Nat.mul_assoc, Nat.mul_comm one]
  have exact := doublings_mul_le rank
  dsimp only
  rw [whole, log2_units, fine, roundHalfEven_mul (Nat.mul_pos pos (Nat.two_pow_pos _))]
  omega

/-! ### Beyond the last magnitude and below the first -/

theorem div_le_roundHalfEven (num den : Nat) : num / den ≤ roundHalfEven num den := by
  unfold roundHalfEven
  dsimp only
  split
  · exact Nat.le_refl _
  split <;> omega

theorem two_pow_le_ten_pow {k n : Nat} (h : k ≤ 3 * n) : 2 ^ k ≤ 10 ^ n :=
  calc 2 ^ k ≤ 2 ^ (3 * n) := Nat.pow_le_pow_right (by decide) h
    _ = 8 ^ n := by rw [Nat.pow_mul]
    _ ≤ 10 ^ n := Nat.pow_le_pow_left (by decide) n

/-- On the finest grid, the integer part of a quotient from 2^1024 on has 2099 bits or more. -/
theorem rankOfRatio_of_le {num den : Nat} (hden : 0 < den) (h : den * 2 ^ (1024 : Nat) ≤ num) :
    rankOfRatio num den = infinityRank := by
  unfold rankOfRatio
  dsimp only
  have large : 2 ^ (2098 : Nat) ≤ num * 2 ^ (1074 : Nat) / den := by
    rw [Nat.le_div_iff_mul_le hden]
    calc 2 ^ (2098 : Nat) * den = den * 2 ^ (1024 : Nat) * 2 ^ (1074 : Nat) := by
          rw [Nat.mul_assoc, ← Nat.pow_add, Nat.mul_comm]
      _ ≤ num * 2 ^ (1074 : Nat) := Nat.mul_le_mul_right _ h
  generalize num * 2 ^ (1074 : Nat) = fine at large ⊢
  have pos : fine / den ≠ 0 := (Nat.lt_of_lt_of_le (Nat.two_pow_pos _) large).ne'
  have bits (n : Nat) : n ≤ Nat.log2 (fine / den) ↔ 2 ^ n ≤ fine / den := Nat.le_log2 pos
  have bits := (bits 2098).mpr large
  have full : 2 ^ 52 ≤ fine / (den * 2 ^ (Nat.log2 (fine / den) - 52)) := by
    rw [← Nat.div_div_eq_div_mul, Nat.le_div_iff_mul_le (Nat.two_pow_pos _), ← Nat.pow_add,
      Nat.add_sub_cancel' (by omega)]
    exact Nat.log2_self_le pos
  have rounded := Nat.le_trans full (div_le_roundHalfEven fine (den * 2 ^ (Nat.log2 (fine / den) - 52)))
  unfold infinityRank
  omega

theorem roundHalfEven_le (num den : Nat) : roundHalfEven num den ≤ num / den + 1 := by
  unfold roundHalfEven
  dsimp only
  split_ifs <;> omega

/-- On the finest grid, the integer part of a quotient below a power of two has at most 1074 bits more. -/
theorem rankOfRatio_lt {num den exponent : Nat} (hden : 0 < den) (h : num < den * 2 ^ exponent)
    (few : exponent ≤ 1000) : rankOfRatio num den < infinityRank := by
  unfold rankOfRatio
  dsimp only
  have scaled (n : Nat) : num * 2 ^ n < 2 ^ (exponent + n) * den := by
    rw [Nat.pow_add, Nat.mul_comm _ den, ← Nat.mul_assoc]
    exact Nat.mul_lt_mul_of_pos_right h (Nat.two_pow_pos _)
  have small : num * 2 ^ (1074 : Nat) / den < 2 ^ (exponent + 1074) :=
    (Nat.div_lt_iff_lt_mul hden).mpr (scaled 1074)
  generalize num * 2 ^ (1074 : Nat) = fine at small ⊢
  have bits : Nat.log2 (fine / den) < exponent + 1074 := by
    by_cases zero : fine / den = 0
    · rw [zero, Nat.log2_zero]
      omega
    · exact (Nat.log2_lt zero).mpr small
  have full : fine / (den * 2 ^ (Nat.log2 (fine / den) - 52)) < 2 ^ 53 := by
    rw [← Nat.div_div_eq_div_mul, Nat.div_lt_iff_lt_mul (Nat.two_pow_pos _), ← Nat.pow_add]
    exact Nat.lt_of_lt_of_le Nat.lt_log2_self (Nat.pow_le_pow_right (by decide) (by omega))
  have rounded := roundHalfEven_le fine (den * 2 ^ (Nat.log2 (fine / den) - 52))
  unfold infinityRank
  omega

/-- Less than half a unit rounds to zero. -/
theorem rankOfRatio_of_lt {num den : Nat} (h : 2 * (num * 2 ^ (1074 : Nat)) < den) : rankOfRatio num den = 0 := by
  unfold rankOfRatio
  generalize num * 2 ^ (1074 : Nat) = fine at h ⊢
  have floor : fine / den = 0 := Nat.div_eq_of_lt (by omega)
  have rest : fine % den = fine := Nat.mod_eq_of_lt (by omega)
  have rounded : roundHalfEven fine den = 0 := by
    unfold roundHalfEven
    simp only [floor, rest, if_pos h]
  simp only [floor, Nat.log2_zero, Nat.zero_sub, Nat.zero_mul, Nat.pow_zero, Nat.mul_one, rounded, Nat.add_zero,
    Nat.min_zero]

theorem isFinite_ofRank {rank : Nat} (h : rank < infinityRank) (negative : Bool) :
    (ofRank negative rank).isFinite = true := by
  have last : min rank infinityRank = rank := by omega
  simp only [ofRank, isFinite, last, h, decide_true]

/-- The number nearest to an integer that is not huge is finite. -/
theorem isFinite_ofInt {n : Int} {exponent : Nat} (h : n.natAbs < 2 ^ exponent) (few : exponent ≤ 1000) :
    (ofInt n).isFinite = true :=
  isFinite_ofRank (rankOfRatio_lt (by decide) (by rwa [Nat.one_mul]) few) _

/-- **Scaled numbers round.** The rank of a scaled number is that of its value, also where it is settled
without the power of ten. -/
theorem rankOfScaled_eq (coefficient : Nat) (exponent : Int) :
    rankOfScaled coefficient exponent = Scaled.rank ⟨coefficient, exponent⟩ := by
  unfold rankOfScaled Scaled.rank
  dsimp only
  by_cases zero : coefficient = 0
  · rw [if_pos zero, zero, Nat.zero_mul]
    refine (rankOfRatio_of_lt ?_).symm
    rw [Nat.zero_mul, Nat.mul_zero]
    exact Nat.pow_pos (by decide)
  rw [if_neg zero]
  by_cases huge : 400 < exponent
  · rw [if_pos huge]
    refine (rankOfRatio_of_le (Nat.pow_pos (by decide)) ?_).symm
    have whole : (-exponent).toNat = 0 := by omega
    rw [whole, Nat.pow_zero, Nat.one_mul]
    calc 2 ^ (1024 : Nat) ≤ 10 ^ exponent.toNat := two_pow_le_ten_pow (by omega)
      _ ≤ coefficient * 10 ^ exponent.toNat := Nat.le_mul_of_pos_left _ (by omega)
  rw [if_neg huge]
  by_cases tiny : Nat.log2 coefficient + 1100 < 3 * (-exponent).toNat
  · rw [if_pos tiny]
    refine (rankOfRatio_of_lt ?_).symm
    have fraction : exponent.toNat = 0 := by omega
    rw [fraction, Nat.pow_zero, Nat.mul_one]
    have below (n : Nat) : 2 * (coefficient * 2 ^ n) < 2 ^ (Nat.log2 coefficient + 1 + n + 1) := by
      have : coefficient * 2 ^ n < 2 ^ (Nat.log2 coefficient + 1) * 2 ^ n :=
        Nat.mul_lt_mul_of_pos_right Nat.lt_log2_self (Nat.two_pow_pos n)
      rw [← Nat.pow_add] at this
      rw [Nat.pow_succ]
      omega
    exact Nat.lt_of_lt_of_le (below 1074) (two_pow_le_ten_pow (by omega))
  · rw [if_neg tiny]

/-! ### Shortest digits -/

theorem firstGrid_rank {rank : Nat} (h : rank < infinityRank) (tie : Tie) (tries : Nat) (k : Int) :
    (firstGrid tie rank tries k).rank = rank := by
  induction tries generalizing k with
  | zero =>
    -- the grid of 10^-1074 holds every unit
    have ten (n : Nat) : 10 ^ n = 2 ^ n * 5 ^ n := Nat.mul_pow 2 5 n
    have up : (-1074 : Int).toNat = 0 := rfl
    have down : (-(-1074) : Int).toNat = 1074 := rfl
    rw [firstGrid, Scaled.rank, up, down, Nat.pow_zero, Nat.mul_one, ten,
      rankOfRatio_scale (Nat.pow_pos (by decide)), rankOfRatio_units h]
  | succ tries ih =>
    unfold firstGrid
    cases found : onGrid? tie rank k with
    | none => exact ih (k - 1)
    | some s => exact onGrid?_rank found

/-- **Shortest digits read back.** -/
theorem shortest_rank {rank : Nat} (h : rank < infinityRank) (tie : Tie) : (shortest tie rank).rank = rank :=
  firstGrid_rank h tie 24 _

/-! ### Digits as text -/

/-- Digits, with a point behind the first of them or further on or without one, and the number that they
write. -/
inductive Unsigned : List Char → Scaled → Prop where
  | whole {digits} : digits ≠ [] → (∀ c ∈ digits, c.isDigit = true) →
      Unsigned digits ⟨Nat.ofDigitChars 10 digits 0, 0⟩
  | point {digits fraction} : digits ≠ [] → (∀ c ∈ digits, c.isDigit = true) →
      (∀ c ∈ fraction, c.isDigit = true) → Unsigned (digits ++ '.' :: fraction) ⟨Nat.ofDigitChars 10 (digits ++ fraction) 0, -fraction.length⟩

/-- The text with a minus sign in front, if there is to be one. -/
def signed (negative : Bool) (cs : List Char) : List Char := if negative then '-' :: cs else cs

theorem Unsigned.eq_cons {cs : List Char} {s : Scaled} (h : Unsigned cs s) :
    ∃ first rest, cs = first :: rest ∧ first.isDigit = true ∧ ∀ c ∈ rest, isNumberChar c = true := by
  cases h with
  | @whole digits hne all =>
    obtain ⟨first, rest, rfl⟩ := List.exists_cons_of_ne_nil hne
    obtain ⟨hfirst, hrest⟩ := List.forall_mem_cons.mp all
    exact ⟨first, rest, rfl, hfirst, fun c mem => isNumberChar_of_isDigit (hrest c mem)⟩
  | @point digits fraction hne all more =>
    obtain ⟨first, rest, rfl⟩ := List.exists_cons_of_ne_nil hne
    obtain ⟨hfirst, hrest⟩ := List.forall_mem_cons.mp all
    refine ⟨first, rest ++ '.' :: fraction, rfl, hfirst, fun c mem => ?_⟩
    rcases List.mem_append.mp mem with mem | mem
    · exact isNumberChar_of_isDigit (hrest c mem)
    · rcases List.mem_cons.mp mem with rfl | mem
      · rfl
      · exact isNumberChar_of_isDigit (more c mem)

theorem splitSign_signed {cs : List Char} {s : Scaled} (h : Unsigned cs s) (negative : Bool) :
    Numeral.splitSign (signed negative cs) = (negative, cs) := by
  cases negative with
  | true => rfl
  | false =>
    obtain ⟨first, rest, rfl, digit, _⟩ := h.eq_cons
    unfold Numeral.splitSign signed
    split
    · rename_i heq
      cases heq
      exact absurd digit (by decide)
    · rename_i heq
      cases heq
      exact absurd digit (by decide)
    · rfl

theorem splitDigits_append {digits rest : List Char} (all : ∀ c ∈ digits, c.isDigit = true)
    (stop : ∀ c ∈ rest.head?, c.isDigit = false) : Numeral.splitDigits (digits ++ rest) = (digits, rest) := by
  unfold Numeral.splitDigits
  rw [takeWhile_run all stop, List.dropWhile_append_of_pos all]
  cases rest with
  | nil => rfl
  | cons c rest => rw [List.dropWhile_cons_of_neg (by simp [stop c rfl])]

/-- **Written numbers are read.** -/
theorem Unsigned.read? {cs : List Char} {s : Scaled} (h : Unsigned cs s) (negative : Bool) :
    Numeral.read? (signed negative cs) = some ⟨negative, s.coefficient, s.exponent⟩ := by
  unfold Numeral.read?
  rw [splitSign_signed h]
  cases h with
  | whole hne all =>
    have split : Numeral.splitDigits (cs ++ []) = (cs, []) := splitDigits_append all nofun
    rw [List.append_nil] at split
    simp [split, Numeral.splitFraction, Numeral.readExponent?, hne]
  | @point digits fraction hne all more =>
    have split : Numeral.splitDigits (digits ++ '.' :: fraction) = (digits, '.' :: fraction) :=
      splitDigits_append all (by rintro _ ⟨⟩; rfl)
    have after : Numeral.splitDigits (fraction ++ []) = (fraction, []) := splitDigits_append more nofun
    rw [List.append_nil] at after
    simp [split, after, Numeral.splitFraction, Numeral.readExponent?, hne]

theorem isDigit_of_mem_toDigits {n : Nat} {c : Char} (h : c ∈ Nat.toDigits 10 n) : c.isDigit = true :=
  Nat.isDigit_of_mem_toDigits (by decide) (by decide) h

theorem isDigit_of_mem_zeros {n : Nat} {c : Char} (h : c ∈ List.replicate n '0') : c.isDigit = true := by
  rw [List.eq_of_mem_replicate h]
  rfl

theorem unsigned_toDigits (n : Nat) : Unsigned (Nat.toDigits 10 n) ⟨n, 0⟩ := by
  have := Unsigned.whole Nat.toDigits_ne_nil fun c (mem : c ∈ Nat.toDigits 10 n) => isDigit_of_mem_toDigits mem
  rwa [Nat.ofDigitChars_ten_toDigits] at this

/-- A point that far from the end of the digits divides by that power of ten. -/
theorem unsigned_pointed {digits : List Char} {places : Nat} (all : ∀ c ∈ digits, c.isDigit = true)
    (long : places + 1 ≤ digits.length) :
    Unsigned (digits.take (digits.length - places) ++ '.' :: digits.drop (digits.length - places))
      ⟨Nat.ofDigitChars 10 digits 0, -places⟩ := by
  generalize hcut : digits.length - places = cut
  have front : digits.take cut ≠ [] := by
    rw [← List.length_pos_iff, List.length_take]
    omega
  have behind : (digits.drop cut).length = places := by
    rw [List.length_drop]
    omega
  have fraction : ∀ c ∈ digits.drop cut, c.isDigit = true := fun c mem => all c (List.mem_of_mem_drop mem)
  have := Unsigned.point front (fun c mem => all c (List.mem_of_mem_take mem)) fraction
  rwa [List.take_append_drop, behind] at this

/-- Positional notation writes the number with the power of ten multiplied out. -/
theorem unsigned_positional (s : Scaled) : ∃ t, Unsigned (positional s) t ∧ t.rank = s.rank := by
  obtain ⟨coefficient, exponent⟩ := s
  unfold positional
  dsimp only
  by_cases whole : 0 ≤ exponent
  · rw [if_pos whole]
    have digits : ∀ c ∈ Nat.toDigits 10 coefficient ++ List.replicate exponent.toNat '0', c.isDigit = true := by
      intro c mem
      exact (List.mem_append.mp mem).elim isDigit_of_mem_toDigits isDigit_of_mem_zeros
    have fraction : (-exponent).toNat = 0 := by omega
    refine ⟨_, .whole (by simp) digits, ?_⟩
    rw [Nat.ofDigitChars_append, Nat.ofDigitChars_ten_toDigits, Nat.ofDigitChars_replicate_zero, Nat.mul_comm]
    simp only [Scaled.rank, fraction, Int.neg_zero, Int.toNat_zero, Nat.pow_zero, Nat.mul_one]
  · rw [if_neg whole]
    generalize hp : List.replicate ((-exponent).toNat + 1 - (Nat.toDigits 10 coefficient).length) '0' ++
      Nat.toDigits 10 coefficient = padded
    have digits : ∀ c ∈ padded, c.isDigit = true := by
      rw [← hp]
      intro c mem
      exact (List.mem_append.mp mem).elim isDigit_of_mem_zeros isDigit_of_mem_toDigits
    have long : (-exponent).toNat + 1 ≤ padded.length := by
      rw [← hp, List.length_append, List.length_replicate]
      omega
    have value : Nat.ofDigitChars 10 padded 0 = coefficient := by
      rw [← hp, Nat.ofDigitChars_append, Nat.ofDigitChars_replicate_zero, Nat.mul_zero,
        Nat.ofDigitChars_ten_toDigits]
    have places : -((-exponent).toNat : Int) = exponent := by omega
    refine ⟨_, unsigned_pointed digits long, ?_⟩
    rw [value, places]

/-- A finite magnitude is written with digits that read back. -/
theorem unsigned_plainMagnitude {rank : Nat} (h : rank < infinityRank) :
    ∃ s, Unsigned (plainMagnitude rank) s ∧ s.rank = rank := by
  unfold plainMagnitude
  rw [if_neg h.ne]
  split
  · rename_i integer
    refine ⟨_, unsigned_toDigits _, ?_⟩
    have same := rankOfRatio_units h
    have pos (n : Nat) : 0 < 2 ^ n := Nat.two_pow_pos n
    have pos := pos 1074
    generalize 2 ^ (1074 : Nat) = one at integer same pos ⊢
    have exact : units rank / one * one = units rank := Nat.div_mul_cancel (Nat.dvd_of_mod_eq_zero integer.1)
    have scaled := @rankOfRatio_scale (units rank / one) 1 one pos
    rw [exact, Nat.one_mul, same] at scaled
    simp only [Scaled.rank, Int.neg_zero, Int.toNat_zero, Nat.pow_zero, Nat.mul_one]
    exact scaled.symm
  · obtain ⟨s, written, same⟩ := unsigned_positional (shortest .up rank)
    exact ⟨s, written, same.trans (shortest_rank h .up)⟩

theorem unsigned_one_zeros (n : Nat) : Unsigned ('1' :: List.replicate n '0') ⟨10 ^ n, 0⟩ := by
  have digits : ∀ c ∈ '1' :: List.replicate n '0', c.isDigit = true := by
    rw [List.forall_mem_cons]
    exact ⟨rfl, fun c => isDigit_of_mem_zeros⟩
  have value : 10 * 0 + ('1'.toNat - '0'.toNat) = 1 := rfl
  have := Unsigned.whole (List.cons_ne_nil _ _) digits
  rwa [Nat.ofDigitChars_cons, Nat.ofDigitChars_replicate_zero, value, Nat.mul_one] at this

theorem rank_of_large {n : Nat} (h : 342 ≤ n) : Scaled.rank ⟨10 ^ n, 0⟩ = infinityRank := by
  simp only [Scaled.rank, Int.neg_zero, Int.toNat_zero, Nat.pow_zero, Nat.mul_one]
  refine rankOfRatio_of_le (by decide) ?_
  rw [Nat.one_mul]
  exact two_pow_le_ten_pow (by omega)

/-- **Written digits.** The digits of a number that is not NaN are those of its magnitude, with a sign
unless it is zero. -/
theorem digits_ranked (negative : Bool) (rank : Fin (infinityRank + 1)) :
    ∃ cs s, (ranked negative rank).digits = signed (negative && rank.val != 0) cs ∧
      Unsigned cs s ∧ s.rank = rank := by
  unfold digits
  dsimp only
  by_cases infinite : rank.val = infinityRank
  · refine ⟨_, _, ?_, unsigned_one_zeros 400, (rank_of_large (by decide)).trans infinite.symm⟩
    have positive : rank.val ≠ 0 := by rw [infinite]; decide
    rw [if_pos infinite, signed]
    generalize List.replicate 400 '0' = zeros
    cases negative <;> simp [positive]
  · obtain ⟨s, written, same⟩ := unsigned_plainMagnitude (show rank.val < infinityRank by omega)
    refine ⟨_, s, ?_, written, same⟩
    rw [if_neg infinite]
    rfl

/-- Zero is written without its sign. -/
theorem digits_zero (negative : Bool) : (ofRank negative 0).digits = ['0'] := by
  have none : units 0 = 0 := rfl
  have small : 0 < exactLimit := by decide
  unfold ofRank digits plain plainMagnitude
  generalize 2 ^ (1074 : Nat) = one
  simp [infinityRank, none, small]

/-! ### Reading the digits -/

/-- What a number comes back as when its digits are read. -/
def reread (x : Binary64) : Binary64 := Parse.State.numberOf (String.ofList x.digits)

theorem reread_nan : reread nan = nan := by cbv

/-- **Read back.** Zero loses its sign, and nothing else is lost. -/
theorem reread_ranked (negative : Bool) (rank : Fin (infinityRank + 1)) :
    reread (ranked negative rank) = ranked (negative && rank.val != 0) rank := by
  obtain ⟨cs, s, hdigits, written, hrank⟩ := digits_ranked negative rank
  have last : min rank.val infinityRank = rank.val := by omega
  unfold reread Parse.State.numberOf Binary64.read?
  rw [hdigits, String.toList_ofList, written.read?]
  simp only [Option.getD_some, Numeral.toBinary64, ofScaled, rankOfScaled_eq, hrank, ofRank, last]

/-- The digits stay what they are. -/
theorem digits_reread (x : Binary64) : (reread x).digits = x.digits := by
  cases x with
  | nan => rw [reread_nan]
  | ranked negative rank =>
    rw [reread_ranked]
    unfold digits plain
    dsimp only
    generalize List.replicate 400 '0' = zeros
    by_cases infinite : rank.val = infinityRank
    · have positive : rank.val ≠ 0 := by rw [infinite]; decide
      simp [positive]
    · simp [infinite]

theorem isNaN_of_isFinite {x : Binary64} (finite : x.isFinite = true) : x.isNaN = false := by
  cases x with
  | nan => cases finite
  | ranked => rfl

/-- The numbers are equal, or none is one. -/
def Alike (x y : Binary64) : Prop := x.eq y = true ∨ x = nan ∧ y = nan

section
variable {x y : Binary64}

theorem key_eq_none_iff : x.key = none ↔ x = nan := by
  cases x <;> simp [key]

/-- Numbers are alike if they are at one place, or none has a place. -/
theorem alike_iff_key : Alike x y ↔ x.key = y.key := by
  rw [Alike, eq_iff]
  constructor
  · rintro (⟨place, hx, hy⟩ | ⟨rfl, rfl⟩)
    · rw [hx, hy]
    · rfl
  · intro same
    cases hx : x.key with
    | none => exact .inr ⟨key_eq_none_iff.mp hx, key_eq_none_iff.mp (same ▸ hx)⟩
    | some place => exact .inl ⟨place, rfl, same ▸ hx⟩

/-- Alike numbers are one number, or zeros. -/
theorem Alike.eq_or_zeros (h : Alike x y) : x = y ∨ ∃ sign sign', x = ofRank sign 0 ∧ y = ofRank sign' 0 := by
  rw [alike_iff_key] at h
  cases x with
  | nan => exact .inl (key_eq_none_iff.mp h.symm).symm
  | ranked negative rank =>
    cases y with
    | nan => cases h
    | ranked negative' rank' =>
      have place := Option.some.inj h
      have ranks : rank = rank' := by
        apply Fin.ext
        split_ifs at place <;> omega
      subst ranks
      by_cases zero : rank = 0
      · exact .inr ⟨negative, negative', by rw [zero]; rfl, by rw [zero]; rfl⟩
      · have positive : rank.val ≠ 0 := fun h => zero (Fin.ext h)
        have signs : negative = negative' := by
          cases negative <;> cases negative' <;>
            simp only [if_true, if_false, Bool.false_eq_true, Bool.true_eq_false] at place ⊢ <;> omega
        exact .inl (by rw [signs])

end

theorem alike_reread (x : Binary64) : Alike (reread x) x := by
  cases x with
  | nan => exact .inr ⟨reread_nan, rfl⟩
  | ranked negative rank =>
    refine .inl ?_
    rw [reread_ranked, eq_iff]
    by_cases zero : rank.val = 0 <;> cases negative <;> simp [key, zero]

/-- Digits are a run. -/
theorem digits_eq_cons (x : Binary64) : ∃ first rest, x.digits = first :: rest ∧ IsRun first rest := by
  cases x with
  | nan => exact ⟨'0', ['.', '0', '.', '0'], rfl, .inl rfl, List.all_eq_true.mp rfl⟩
  | ranked negative rank =>
    obtain ⟨cs, s, hdigits, written, _⟩ := digits_ranked negative rank
    obtain ⟨first, rest, rfl, digit, more⟩ := written.eq_cons
    rw [hdigits, signed]
    split
    · have all : ∀ c ∈ first :: rest, isNumberChar c = true :=
        List.forall_mem_cons.mpr ⟨isNumberChar_of_isDigit digit, more⟩
      exact ⟨'-', first :: rest, rfl, .inr ⟨rfl, digit⟩, all⟩
    · exact ⟨first, rest, rfl, .inl digit, more⟩

end Binary64
end RecordRules
