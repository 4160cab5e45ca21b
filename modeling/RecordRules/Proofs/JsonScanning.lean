/-
# Scanning JSON that is written

The text of a JSON lexeme is scanned as that lexeme, a number as what the reader of numbers
makes of its text, as long as a number is not followed by a character that could go on with it.
In a string, the escapes undo to the characters they were written for.

A reader that takes the nearest number gives back the one that was written. For a number with a
fraction there are three layouts of its shortest digits: positional with a point inside,
positional with a zero behind the point, and one digit with a power of ten. Each is a whole part
with no zero in front of other digits, a fraction, and a power (`Written`); what is read from it
is the value of the digits, and the shortest digits read back as the number they were taken from.

Key definitions: `Written`, `Lexeme.Valid`, `Lexeme.reread?`, `Scans`. Key theorems:
`Number.ofText?_text`, `keeps_nearest`, `unquote?_escaped`, `Scans.cons`.
-/
import RecordRules.Json.Text
import RecordRules.Proofs.Scanning

namespace RecordRules.Json

open Binary64 (Scaled signed infinityRank rankOfRatio_scale rankOfRatio_of_lt rankOfScaled_eq shortest
  shortest_rank splitDigits_append isDigit_of_mem_toDigits isDigit_of_mem_zeros)

/-! ### Whole parts -/

/-- One or more digits, with no zero in front of others. -/
structure IsWhole (digits : List Char) : Prop where
  nonempty : digits ≠ []
  all : ∀ c ∈ digits, c.isDigit = true
  lead : digits.length = 1 ∨ digits.head? ≠ some '0'

section
variable {digits : List Char}

theorem IsWhole.natural? (h : IsWhole digits) : Text.natural? digits = some (Nat.ofDigitChars 10 digits 0) := by
  have all : digits.all Char.isDigit = true := List.all_eq_true.mpr h.all
  rw [Text.natural?, if_pos (by simp [h.nonempty, all])]

theorem IsWhole.wholePart? (h : IsWhole digits) : wholePart? digits = some (Nat.ofDigitChars 10 digits 0) := by
  rw [Json.wholePart?, if_pos h.lead, h.natural?]

end

/-- The digits of a positive number do not begin with zero: the others alone would not suffice. -/
theorem head_toDigits {n : Nat} (h : 0 < n) : (Nat.toDigits 10 n).head? ≠ some '0' := by
  intro zero
  obtain ⟨rest, digits⟩ : ∃ rest, Nat.toDigits 10 n = '0' :: rest := List.head?_eq_some_iff.mp zero
  have value : Nat.ofDigitChars 10 rest 0 = n := by
    have := Nat.ofDigitChars_ten_toDigits (n := n)
    rwa [digits, Nat.ofDigitChars_cons] at this
  have all : rest.all Char.isDigit = true := List.all_eq_true.mpr fun c mem =>
    isDigit_of_mem_toDigits (digits ▸ List.mem_cons_of_mem _ mem)
  have small := Text.ofDigitChars_lt all
  rw [value] at small
  cases rest with
  | nil => simp at small; omega
  | cons c rest =>
    have short := (Nat.length_toDigits_le_iff (b := 10) (by decide) (Nat.succ_pos rest.length)).mpr small
    rw [digits] at short
    simp at short

theorem isWhole_toDigits (n : Nat) : IsWhole (Nat.toDigits 10 n) := by
  refine ⟨Nat.toDigits_ne_nil, fun c => isDigit_of_mem_toDigits, ?_⟩
  rcases Nat.eq_zero_or_pos n with rfl | positive
  · exact .inl rfl
  · exact .inr (head_toDigits positive)

/-! ### Numbers with a fraction -/

/-- Whole digits, with a point and digits behind them or with a power of ten, and the number that they
write. -/
inductive Written : List Char → Scaled → Prop where
  | point {whole fraction} : IsWhole whole → fraction ≠ [] → (∀ c ∈ fraction, c.isDigit = true) →
      Written (whole ++ '.' :: fraction) ⟨Nat.ofDigitChars 10 (whole ++ fraction) 0, -fraction.length⟩
  | power {whole fraction} (power : Int) : IsWhole whole → (∀ c ∈ fraction, c.isDigit = true) →
      Written (whole ++ (if fraction.isEmpty then [] else '.' :: fraction) ++
          'e' :: (if power < 0 then '-' else '+') :: Nat.toDigits 10 power.natAbs)
        ⟨Nat.ofDigitChars 10 (whole ++ fraction) 0, power - fraction.length⟩

theorem readExponent?_power (power : Int) : Numeral.readExponent?
    ('e' :: (if power < 0 then '-' else '+') :: Nat.toDigits 10 power.natAbs) = some power := by
  have digits := (isWhole_toDigits power.natAbs).natural?
  rw [Nat.ofDigitChars_ten_toDigits] at digits
  by_cases negative : power < 0
  · simp [Numeral.readExponent?, Numeral.splitSign, digits, negative, abs_of_neg negative]
  · simp [Numeral.readExponent?, Numeral.splitSign, digits, negative, abs_of_nonneg (not_lt.mp negative)]

section
variable {whole rest fraction power : List Char} {cs : List Char} {s : Scaled}

/-- What a sign and whole digits are read as, by what stands behind them. -/
theorem ofText?_signed (negative : Bool) (h : IsWhole whole) (stop : ∀ c ∈ rest.head?, c.isDigit = false) :
    Number.ofText? (signed negative (whole ++ rest)) =
      let n := Nat.ofDigitChars 10 whole 0
      if rest.isEmpty && (if negative then 0 < n && n ≤ 2 ^ 63 else n < 2 ^ 64) then
        some (.integer (if negative then -(n : Int) else n))
      else if rest.head? = some '.' && (Numeral.splitFraction rest).1.isEmpty then none
      else (Numeral.readExponent? (Numeral.splitFraction rest).2).bind fun exponent =>
        let x := Binary64.ofScaled negative (Nat.ofDigitChars 10 (whole ++ (Numeral.splitFraction rest).1) 0)
          (exponent - (Numeral.splitFraction rest).1.length)
        if x.isFinite then some (.float x) else none := by
  have digits := splitDigits_append h.all stop
  have noSign : ∀ cs, whole ++ rest ≠ '-' :: cs := by
    obtain ⟨first, tail, rfl⟩ := List.exists_cons_of_ne_nil h.nonempty
    rintro cs ⟨⟩
    exact absurd (h.all _ List.mem_cons_self) (by decide)
  unfold Number.ofText?
  split
  rename_i sign unsigned cut
  obtain ⟨rfl, rfl⟩ : sign = negative ∧ unsigned = whole ++ rest := by
    cases negative with
    | true => exact (Prod.mk.inj cut).imp Eq.symm Eq.symm
    | false =>
      split at cut
      · exact absurd ‹_› (noSign _)
      · exact (Prod.mk.inj cut).imp Eq.symm Eq.symm
  simp only [digits, h.wholePart?]
  rfl

theorem ofScaled_eq {coefficient rank : Nat} {exponent : Int} (negative : Bool)
    (value : Scaled.rank ⟨coefficient, exponent⟩ = rank) :
    Binary64.ofScaled negative coefficient exponent = .ofRank negative rank := by
  rw [Binary64.ofScaled, rankOfScaled_eq, value]

/-- **Written numbers are read.** -/
theorem Written.ofText? (h : Written cs s) (negative : Bool) {rank : Nat} (value : s.rank = rank)
    (finite : rank < infinityRank) :
    Number.ofText? (signed negative cs) = some (.float (.ofRank negative rank)) := by
  have isFinite := Binary64.isFinite_ofRank finite negative
  cases h with
  | @point whole fraction hw nonempty digits =>
    have number := ofScaled_eq negative value
    have split : Numeral.splitDigits (fraction ++ []) = (fraction, []) := splitDigits_append digits nofun
    rw [List.append_nil] at split
    rw [ofText?_signed negative hw (by rintro _ ⟨⟩; rfl)]
    simp [Numeral.splitFraction, split, nonempty, Numeral.readExponent?, number, isFinite]
  | @power whole fraction power hw digits =>
    have number := ofScaled_eq negative value
    have read := readExponent?_power power
    rw [List.append_assoc]
    generalize (if power < 0 then '-' else '+') :: Nat.toDigits 10 power.natAbs = exponent at read ⊢
    have stop : ∀ c ∈ ('e' :: exponent).head?, c.isDigit = false := by rintro _ ⟨⟩; rfl
    cases fraction with
    | nil =>
      rw [List.append_nil, List.length_nil, Nat.cast_zero, Int.sub_zero] at number
      rw [List.isEmpty_nil, if_pos rfl, List.nil_append, ofText?_signed negative hw stop]
      simp [Numeral.splitFraction, read, number, isFinite]
    | cons first more =>
      have split : Numeral.splitDigits (first :: more ++ 'e' :: exponent) = (first :: more, 'e' :: exponent) :=
        splitDigits_append digits stop
      rw [List.isEmpty_cons, if_neg Bool.false_ne_true, List.cons_append,
        ofText?_signed negative hw (by rintro _ ⟨⟩; rfl)]
      simp only [Numeral.splitFraction, split, read, Option.bind_some, number, isFinite]
      simp

end

/-! ### Shortest digits -/

theorem written_scientific (s : Scaled) : Written (scientific s) s := by
  obtain ⟨coefficient, exponent⟩ := s
  have digits := isWhole_toDigits coefficient
  have value := Nat.ofDigitChars_ten_toDigits (n := coefficient)
  generalize hd : Nat.toDigits 10 coefficient = ds at digits value
  have whole : IsWhole (ds.take 1) := by
    have one : (ds.take 1).length = 1 := by
      rw [List.length_take]
      have := List.length_pos_iff.mpr digits.nonempty
      omega
    exact ⟨List.ne_nil_of_length_eq_add_one one, fun c mem => digits.all c (List.mem_of_mem_take mem), .inl one⟩
  have written := Written.power (exponent + (ds.length - 1 : Nat)) whole
    fun c (mem : c ∈ ds.drop 1) => digits.all c (List.mem_of_mem_drop mem)
  rw [List.take_append_drop, value, List.length_drop, Int.add_sub_cancel] at written
  unfold scientific
  rw [hd]
  exact written

/-- Positional notation of an integer, with a zero behind the point. -/
theorem written_positional_zero {s : Scaled} (whole : 0 ≤ s.exponent) (positive : 0 < s.coefficient) :
    ∃ t, Written (positional s ++ ['.', '0']) t ∧ t.rank = s.rank := by
  obtain ⟨coefficient, exponent⟩ := s
  have digits := isWhole_toDigits coefficient
  have padded : IsWhole (Nat.toDigits 10 coefficient ++ List.replicate exponent.toNat '0') := by
    refine ⟨List.append_ne_nil_of_left_ne_nil digits.nonempty _, fun c mem => ?_, .inr ?_⟩
    · exact (List.mem_append.mp mem).elim isDigit_of_mem_toDigits isDigit_of_mem_zeros
    · rw [List.head?_append_of_ne_nil _ digits.nonempty]
      exact head_toDigits positive
  have none : (-exponent).toNat = 0 := by
    dsimp only at whole
    omega
  unfold positional
  rw [if_pos whole]
  refine ⟨_, .point padded (List.cons_ne_nil _ _) (by simp), ?_⟩
  rw [Nat.ofDigitChars_append, Nat.ofDigitChars_append, Nat.ofDigitChars_ten_toDigits,
    Nat.ofDigitChars_replicate_zero, Nat.ofDigitChars_cons, Nat.ofDigitChars_nil]
  have scaled := @rankOfRatio_scale (coefficient * 10 ^ exponent.toNat) 1 10 (by decide)
  have zero : 10 * (10 ^ exponent.toNat * coefficient) + ('0'.toNat - '0'.toNat) =
      coefficient * 10 ^ exponent.toNat * 10 := by
    rw [Nat.sub_self, Nat.add_zero, Nat.mul_comm 10, Nat.mul_comm coefficient]
  rw [zero]
  simpa [Scaled.rank, none] using scaled

section
variable {ds padded : List Char} {count : Nat}

theorem length_padded (h : List.replicate (count + 1 - ds.length) '0' ++ ds = padded) :
    padded.length = max (count + 1) ds.length := by
  rw [← h, List.length_append, List.length_replicate]
  omega

/-- Digits with zeros in front of them where too few would be left before the point. -/
theorem isWhole_padded (h : List.replicate (count + 1 - ds.length) '0' ++ ds = padded)
    (all : ∀ c ∈ padded, c.isDigit = true) (lead : ds.head? ≠ some '0') :
    IsWhole (padded.take (padded.length - count)) := by
  have long := length_padded h
  refine ⟨?_, fun c mem => all c (List.mem_of_mem_take mem), ?_⟩
  · rw [← List.length_pos_iff, List.length_take]
    omega
  · -- Zeros are only put in front where the point is to stand behind the first of them.
    by_cases short : ds.length ≤ count
    · left
      rw [List.length_take]
      omega
    · right
      have same : padded = ds := by rw [← h, Nat.sub_eq_zero_of_le (by omega)]; rfl
      rw [List.head?_take, if_neg (by omega), same]
      exact lead

end

/-- Positional notation of a number with digits behind the point. -/
theorem written_positional {s : Scaled} (fraction : s.exponent < 0) (positive : 0 < s.coefficient) :
    Written (positional s) s := by
  obtain ⟨coefficient, exponent⟩ := s
  dsimp only at fraction positive
  have places : -((-exponent).toNat : Int) = exponent := by omega
  have places_pos : 0 < (-exponent).toNat := by omega
  have digits := isWhole_toDigits coefficient
  have lead := head_toDigits positive
  have value := Nat.ofDigitChars_ten_toDigits (n := coefficient)
  unfold positional
  rw [if_neg (not_le.mpr fraction)]
  dsimp only
  generalize (-exponent).toNat = count at places places_pos ⊢
  generalize Nat.toDigits 10 coefficient = ds at digits lead value ⊢
  generalize hp : List.replicate (count + 1 - ds.length) '0' ++ ds = padded
  have all : ∀ c ∈ padded, c.isDigit = true := by
    rw [← hp]
    intro c mem
    exact (List.mem_append.mp mem).elim isDigit_of_mem_zeros (digits.all c)
  have behind : (padded.drop (padded.length - count)).length = count := by
    rw [List.length_drop, length_padded hp]
    omega
  have written := Written.point (isWhole_padded hp all lead) (List.length_pos_iff.mp (behind ▸ places_pos))
    fun c mem => all c (List.mem_of_mem_drop mem)
  have same : Nat.ofDigitChars 10 padded 0 = coefficient := by
    rw [← hp, Nat.ofDigitChars_append, Nat.ofDigitChars_replicate_zero, Nat.mul_zero, value]
  rwa [List.take_append_drop, behind, places, same] at written

/-- The text of a positive finite magnitude. -/
theorem written_magnitudeText {rank : Nat} (positive : 0 < rank) (finite : rank < infinityRank) :
    ∃ s, Written (magnitudeText rank) s ∧ s.rank = rank := by
  have same := shortest_rank finite .even
  have coefficient : 0 < (shortest .even rank).coefficient := by
    refine Nat.pos_of_ne_zero fun zero => ?_
    have none : 2 * (0 * 2 ^ (1074 : Nat)) < 10 ^ (-(shortest .even rank).exponent).toNat := by
      rw [Nat.zero_mul, Nat.mul_zero]
      exact Nat.pow_pos (by decide)
    rw [Scaled.rank, zero, Nat.zero_mul, rankOfRatio_of_lt none] at same
    omega
  unfold magnitudeText
  dsimp only
  split_ifs with scientific whole
  · exact ⟨_, written_scientific _, same⟩
  · obtain ⟨s, written, value⟩ := written_positional_zero whole coefficient
    exact ⟨s, written, value.trans same⟩
  · exact ⟨_, written_positional (not_le.mp whole) coefficient, same⟩

/-! ### Numbers -/

theorem text_integer (n : Int) : Number.text (.integer n) = signed (n < 0) (Nat.toDigits 10 n.natAbs) := by
  simp only [Number.text, signed, decide_eq_true_eq]

/-- The text of a finite number is a sign and what its digits are written as. -/
theorem text_float {x : Binary64} (finite : x.isFinite = true) : ∃ negative cs s rank,
    Number.text (.float x) = signed negative cs ∧ Written cs s ∧ s.rank = rank ∧ rank < infinityRank ∧
      x = .ofRank negative rank := by
  cases x with
  | nan => cases finite
  | ranked negative rank =>
    have last : rank.val < infinityRank := by simpa [Binary64.isFinite] using finite
    have same : .ranked negative rank = Binary64.ofRank negative rank := by
      have bound : min rank.val infinityRank = rank.val := by omega
      simp only [Binary64.ofRank, bound]
    simp only [Number.text, floatText, if_neg last.ne]
    by_cases zero : rank.val = 0
    · have written : Written (['0'] ++ '.' :: ['0']) ⟨0, -1⟩ :=
        .point ⟨List.cons_ne_nil _ _, by simp, .inl rfl⟩ (List.cons_ne_nil _ _) (by simp)
      have none : Scaled.rank ⟨0, -1⟩ = rank := by rw [zero, ← rankOfScaled_eq]; rfl
      exact ⟨negative, _, _, rank, by rw [if_pos zero]; rfl, written, none, last, same⟩
    · obtain ⟨s, written, value⟩ := written_magnitudeText (Nat.pos_of_ne_zero zero) last
      exact ⟨negative, _, s, rank, by rw [if_neg zero]; rfl, written, value, last, same⟩

/-- **Numbers read back** as the nearest. -/
theorem Number.ofText?_text {n : Number} (valid : n.Valid) : ofText? n.text = some n := by
  cases n with
  | float x =>
    obtain ⟨negative, cs, s, rank, text, written, value, finite, rfl⟩ := text_float valid
    rw [text, written.ofText? negative value finite]
  | integer n =>
    obtain ⟨low, high⟩ := valid
    have whole := isWhole_toDigits n.natAbs
    have read := @ofText?_signed _ [] (n < 0) whole nofun
    rw [List.append_nil, Nat.ofDigitChars_ten_toDigits] at read
    rw [text_integer, read]
    by_cases negative : n < 0
    · have range : 0 < n.natAbs ∧ n.natAbs ≤ 2 ^ 63 := by omega
      have back : -(n.natAbs : Int) = n := by omega
      simp only [negative, decide_true, if_true, range, List.isEmpty_nil, Bool.and_self, back]
    · have range : n.natAbs < 2 ^ 64 := by omega
      have back : (n.natAbs : Int) = n := by omega
      simp only [negative, decide_false, Bool.false_eq_true, if_false, range, decide_true, List.isEmpty_nil,
        Bool.and_self, if_true, back]

theorem keeps_nearest {n : Number} (valid : n.Valid) : NumberReader.nearest.Keeps n :=
  congrArg (Option.map Number.toBinary64) (Number.ofText?_text valid)

/-- A text that numbers are made of: a digit or a sign first, and behind it nothing that would end it. -/
structure NumberRun (first : Char) (rest : List Char) : Prop where
  start : first.isDigit = true ∨ first = '-'
  all : ∀ c ∈ rest, isNumberChar c = true

theorem isNumberChar_of_isDigit {c : Char} (h : c.isDigit = true) : isNumberChar c = true := by
  simp [isNumberChar, h]

theorem numberRun_signed {cs : List Char} (negative : Bool) {first : Char} {rest : List Char}
    (h : cs = first :: rest) (digit : first.isDigit = true) (all : ∀ c ∈ rest, isNumberChar c = true) :
    ∃ first rest, signed negative cs = first :: rest ∧ NumberRun first rest := by
  cases negative with
  | true => exact ⟨'-', cs, rfl, .inr rfl, h ▸ List.forall_mem_cons.mpr ⟨isNumberChar_of_isDigit digit, all⟩⟩
  | false => exact ⟨first, rest, h, .inl digit, all⟩

theorem IsWhole.eq_cons {digits : List Char} (h : IsWhole digits) : ∃ first rest, digits = first :: rest ∧
    first.isDigit = true ∧ ∀ c ∈ rest, isNumberChar c = true := by
  obtain ⟨first, rest, rfl⟩ := List.exists_cons_of_ne_nil h.nonempty
  obtain ⟨digit, all⟩ := List.forall_mem_cons.mp h.all
  exact ⟨first, rest, rfl, digit, fun c mem => isNumberChar_of_isDigit (all c mem)⟩

theorem Written.eq_cons {cs : List Char} {s : Scaled} (h : Written cs s) : ∃ first rest, cs = first :: rest ∧
    first.isDigit = true ∧ ∀ c ∈ rest, isNumberChar c = true := by
  cases h with
  | @point whole fraction hw _ digits =>
    obtain ⟨first, rest, rfl, digit, all⟩ := hw.eq_cons
    refine ⟨first, rest ++ '.' :: fraction, rfl, digit, ?_⟩
    rw [List.forall_mem_append, List.forall_mem_cons]
    exact ⟨all, rfl, fun c mem => isNumberChar_of_isDigit (digits c mem)⟩
  | @power whole fraction power hw digits =>
    obtain ⟨first, rest, rfl, digit, all⟩ := hw.eq_cons
    refine ⟨first, _, by rw [List.append_assoc, List.cons_append], digit, ?_⟩
    rw [List.forall_mem_append, List.forall_mem_append, List.forall_mem_cons, List.forall_mem_cons]
    refine ⟨all, ?_, rfl, ?_, fun c mem => isNumberChar_of_isDigit (isDigit_of_mem_toDigits mem)⟩
    · cases fraction with
      | nil => exact List.forall_mem_nil _
      | cons => exact List.forall_mem_cons.mpr ⟨rfl, fun c mem => isNumberChar_of_isDigit (digits c mem)⟩
    · split_ifs <;> rfl

theorem text_eq_cons {n : Number} (valid : n.Valid) :
    ∃ first rest, n.text = first :: rest ∧ NumberRun first rest := by
  cases n with
  | integer n =>
    obtain ⟨first, rest, digits, digit, all⟩ := (isWhole_toDigits n.natAbs).eq_cons
    rw [text_integer]
    exact numberRun_signed _ digits digit all
  | float x =>
    obtain ⟨negative, cs, s, rank, text, written, _⟩ := text_float valid
    obtain ⟨first, rest, digits, digit, all⟩ := written.eq_cons
    rw [text]
    exact numberRun_signed negative digits digit all

/-! ### Strings -/

theorem hexQuad?_control {n : Nat} (h : n < 32) (rest : List Char) :
    hexQuad? ('0' :: '0' :: Nat.digitChar (n / 16) :: Nat.digitChar (n % 16) :: rest) = some n := by
  have digits : ∀ m < 16, Text.hexDigit? (Nat.digitChar m) = some m := by decide
  have zero : Text.hexDigit? '0' = some 0 := by decide
  rw [hexQuad?, zero, digits (n / 16) (by omega), digits (n % 16) (by omega)]
  simp only [Option.pure_def, Option.bind_eq_bind, Option.bind_some, Option.some.injEq]
  omega

/-- A numeric escape of a control character is that character. -/
theorem numericEscape?_control {c : Char} (h : c < ' ') (rest : List Char) :
    numericEscape? ('0' :: '0' :: Nat.digitChar (c.toNat / 16) :: Nat.digitChar (c.toNat % 16) :: rest) =
      some (c, 4) := by
  have small : c.toNat < 32 := h
  have noSurrogate :
      ¬(0xD800 ≤ c.toNat ∧ c.toNat < 0xDC00) ∧ ¬(0xDC00 ≤ c.toNat ∧ c.toNat < 0xE000) := by omega
  simp [numericEscape?, hexQuad?_control small, noSurrogate]

/-- One character, escaped where it has to be, is read as it is. -/
theorem unquote?_escaped_append (c : Char) (tail : List Char) : unquote? (escaped c ++ tail) =
    (unquote? tail).map fun (body, length) => (c :: body, length + (escaped c).length) := by
  have short {letter : Char} (other : letter ≠ 'u') (read : shortEscape? letter = some c) :
      unquote? ('\\' :: letter :: tail) =
        (unquote? tail).map fun (body, length) => (c :: body, length + 2) := by
    rw [unquote?.eq_def]
    simp only [read, Option.pure_def, Option.bind_eq_bind, Option.bind_some]
    cases unquote? tail <;> rfl
  unfold escaped
  split_ifs with quote slash back feed line ret tab control
  · subst quote; exact short (by decide) rfl
  · subst slash; exact short (by decide) rfl
  · subst back; exact short (by decide) rfl
  · subst feed; exact short (by decide) rfl
  · subst line; exact short (by decide) rfl
  · subst ret; exact short (by decide) rfl
  · subst tab; exact short (by decide) rfl
  · have read := numericEscape?_control control tail
    rw [unquote?.eq_def]
    simp only [List.cons_append, List.nil_append, read, Option.pure_def, Option.bind_eq_bind, Option.bind_some,
      List.drop_succ_cons, List.drop_zero]
    cases unquote? tail <;> rfl
  · rw [unquote?.eq_def]
    simp only [List.cons_append, List.nil_append, slash, imp_false, IsEmpty.forall_iff, implies_true, control,
      or_self, if_false, Option.pure_def, Option.bind_eq_bind]
    cases unquote? tail <;> rfl

theorem unquote?_escaped (cs rest : List Char) :
    unquote? (cs.flatMap escaped ++ '"' :: rest) = some (cs, (cs.flatMap escaped).length + 1) := by
  induction cs with
  | nil => rw [List.flatMap_nil, List.nil_append, unquote?]; rfl
  | cons c cs ih =>
    rw [List.flatMap_cons, List.append_assoc, unquote?_escaped_append, ih]
    simp
    omega

/-! ### Lexemes -/

/-- If the lexeme is a number, it has the property. -/
def Lexeme.EachNumber (p : Number → Prop) : Lexeme → Prop
  | .number n => p n
  | _ => True

/-- A lexeme that has a text of its own. -/
def Lexeme.Valid (l : Lexeme) : Prop := l.EachNumber Number.Valid

/-- What the text of the lexeme is read as: a number as the reader has it, all else as it is. -/
def Lexeme.reread? (numbers : NumberReader) : Lexeme → Option Lexeme
  | .number n => (numbers.read? n.text).map .number
  | l => some l

/-- The texts of the lexemes in a row are scanned as what each of them is read as. -/
def Scans (numbers : NumberReader) (ls : List Lexeme) : Prop :=
  Lexeme.scan numbers (ls.flatMap Lexeme.text) = ls.mapM (Lexeme.reread? numbers)

/-- No character at the start of the texts goes on with a number. -/
def EndsNumber (ls : List Lexeme) : Prop := ∀ c ∈ (ls.flatMap Lexeme.text).head?, isNumberChar c = false

section
variable {numbers : NumberReader} {l : Lexeme} {ls : List Lexeme}

theorem scans_nil : Scans numbers [] := by
  unfold Scans
  rw [List.flatMap_nil, Lexeme.scan, List.mapM_nil]
  rfl

/-- A lexeme in front, if its text is scanned as what the lexeme is read as. -/
theorem Scans.cons_of_first {c : Char} {used : List Char} (h : Scans numbers ls) (text : l.text = c :: used)
    (solid : isSpace c = false) (first : Lexeme.first? numbers c (used ++ ls.flatMap Lexeme.text) =
      (l.reread? numbers).map fun read => (read, used.length)) : Scans numbers (l :: ls) := by
  unfold Scans at h ⊢
  rw [List.flatMap_cons, text, List.cons_append, Lexeme.scan, if_neg (by simp [solid]), first, List.mapM_cons]
  cases l.reread? numbers with
  | none => rfl
  | some read =>
    simp only [Option.map_some, List.drop_left, h]
    cases ls.mapM (Lexeme.reread? numbers) <;> rfl

theorem not_isSpace {c : Char} (digit : c.isDigit = true) : isSpace c = false := by
  simp only [isSpace, Bool.or_eq_false_iff, decide_eq_false_iff_not]
  refine ⟨⟨⟨?_, ?_⟩, ?_⟩, ?_⟩ <;> (rintro rfl; exact absurd digit (by decide))

theorem first?_number {c : Char} {run rest : List Char} (number : NumberRun c run)
    (stop : ∀ d ∈ rest.head?, isNumberChar d = false) : Lexeme.first? numbers c (run ++ rest) =
      (numbers.read? (c :: run)).map fun n => (.number n, run.length) := by
  have plain := number.start
  unfold Lexeme.first?
  split
  case h_11 => simp only [takeWhile_run number.all stop]
  all_goals exact absurd plain (by decide)

/-- **One lexeme more.** A number needs something behind it that ends it. -/
theorem Scans.cons (h : Scans numbers ls) (valid : l.Valid) (ends : ∀ n, l = .number n → EndsNumber ls) :
    Scans numbers (l :: ls) := by
  cases l with
  | number n =>
    obtain ⟨c, run, text, number⟩ := text_eq_cons valid
    have first : Lexeme.first? numbers _ _ = _ := first?_number number (ends n rfl)
    rw [← text] at first
    refine h.cons_of_first text ?_ (first.trans ?_)
    · rcases number.start with digit | rfl
      · exact not_isSpace digit
      · rfl
    · rw [Lexeme.reread?, Option.map_map]
      rfl
  | string s =>
    have read := unquote?_escaped s.toList (ls.flatMap Lexeme.text)
    have text : (Lexeme.string s).text = '"' :: (s.toList.flatMap escaped ++ ['"']) := rfl
    have same : (Lexeme.string s).reread? numbers = some (.string s) := rfl
    refine h.cons_of_first text rfl ?_
    rw [List.append_assoc, List.singleton_append, Lexeme.first?, same]
    simp only [read, Option.map_some, String.ofList_toList, List.length_append, List.length_singleton]
  | bool b => cases b <;> exact h.cons_of_first rfl rfl rfl
  | _ => exact h.cons_of_first rfl rfl rfl

end

end RecordRules.Json
