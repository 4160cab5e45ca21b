/-
# The texts that are decimals

They are a regular language: a minus sign or none, digits, and a point with more digits behind it
or nothing (`Decimal.pattern`). The reader passes the sign, cuts behind the first run of digits
and looks at what is left; a second point stands among the digits of the fraction then, and is
refused there like anything else that is no digit (`Decimal.isDecimal_iff_mem`).

Whatever is written in this language is a numeral. So a decimal always reads as a number, and the
number is not NaN. Handed over as a text it reads as the same number, for there are no blanks to
trim and no letters in it (`Decimal.numericText?_text`).

Key definitions: `Decimal.digits`, `Decimal.pattern`. Key theorems: `Decimal.isDecimal_iff_mem`,
`Decimal.decimals_exact`.
-/
import RecordRules.Proofs.ScalarTexts

namespace RecordRules
namespace Decimal

open RegularExpression (char)

/-! ### The language -/

/-- One digit, `[0-9]`. -/
def digit : RegularExpression Char :=
  char '0' + char '1' + char '2' + char '3' + char '4' + char '5' + char '6' + char '7' + char '8' + char '9'

/-- One digit or more, `[0-9]+`. -/
def digits : RegularExpression Char := digit * digit.star

/-- Digits with a fraction or without one, `[0-9]+(\.[0-9]+)?`. -/
def unsignedPattern : RegularExpression Char := digits * (1 + char '.' * digits)

/-- A minus sign or none in front of them, `-?[0-9]+(\.[0-9]+)?`. -/
def pattern : RegularExpression Char := (1 + char '-') * unsignedPattern

theorem isDigit_iff_mem {c : Char} : c.isDigit = true ↔ c ∈ "0123456789".toList := by
  constructor
  · intro digit
    obtain ⟨low, high⟩ := toNat_of_isDigit digit
    rw [← Char.ofNat_toNat c]
    generalize c.toNat = n at low high
    interval_cases n <;> decide
  · have all : "0123456789".toList.all Char.isDigit = true := rfl
    exact List.all_eq_true.mp all c

section
variable {cs : List Char}

theorem mem_char {c : Char} : cs ∈ (char c).matches' ↔ cs = [c] := by
  rw [RegularExpression.matches'_char]
  exact Set.mem_singleton_iff

theorem mem_digit : cs ∈ digit.matches' ↔ ∃ c, c.isDigit = true ∧ cs = [c] := by
  simp only [digit, RegularExpression.matches'_add, Language.mem_add, mem_char, isDigit_iff_mem]
  simp [or_assoc]

theorem mem_digits : cs ∈ digits.matches' ↔ cs ≠ [] ∧ ∀ c ∈ cs, c.isDigit = true := by
  simp only [digits, RegularExpression.matches'_mul, RegularExpression.matches'_star, Language.mem_mul, mem_digit]
  constructor
  · rintro ⟨_, ⟨c, first, rfl⟩, more, star, rfl⟩
    obtain ⟨parts, rfl, each⟩ := Language.mem_kstar.mp star
    refine ⟨by simp, List.forall_mem_cons.mpr ⟨first, fun d mem => ?_⟩⟩
    obtain ⟨part, inside, mem⟩ := List.mem_flatten.mp mem
    obtain ⟨_, digit, rfl⟩ := mem_digit.mp (each part inside)
    rwa [List.mem_singleton.mp mem]
  · rintro ⟨nonempty, all⟩
    obtain ⟨c, more, rfl⟩ := List.exists_cons_of_ne_nil nonempty
    obtain ⟨first, rest⟩ := List.forall_mem_cons.mp all
    have single : more = (more.map fun d => [d]).flatten := by
      rw [← List.flatMap_def, List.flatMap_singleton']
    refine ⟨[c], ⟨c, first, rfl⟩, more, Language.mem_kstar.mpr ⟨_, single, fun part mem => ?_⟩, rfl⟩
    obtain ⟨d, inside, rfl⟩ := List.mem_map.mp mem
    exact mem_digit.mpr ⟨d, rest d inside, rfl⟩

theorem mem_unsignedPattern : cs ∈ unsignedPattern.matches' ↔ cs ∈ digits.matches' ∨
    ∃ whole ∈ digits.matches', ∃ fraction ∈ digits.matches', cs = whole ++ '.' :: fraction := by
  simp only [unsignedPattern, RegularExpression.matches'_mul, RegularExpression.matches'_add,
    RegularExpression.matches'_epsilon, Language.mem_mul, Language.mem_add, Language.mem_one, mem_char]
  constructor
  · rintro ⟨whole, front, behind, rfl | ⟨_, rfl, fraction, digits, rfl⟩, rfl⟩
    · rw [List.append_nil]
      exact .inl front
    · exact .inr ⟨whole, front, fraction, digits, rfl⟩
  · rintro (front | ⟨whole, front, fraction, digits, rfl⟩)
    · exact ⟨cs, front, [], .inl rfl, List.append_nil cs⟩
    · exact ⟨whole, front, '.' :: fraction, .inr ⟨['.'], rfl, fraction, digits, rfl⟩, rfl⟩

theorem mem_pattern : cs ∈ pattern.matches' ↔
    cs ∈ unsignedPattern.matches' ∨ ∃ unsigned ∈ unsignedPattern.matches', cs = '-' :: unsigned := by
  simp only [pattern, RegularExpression.matches'_mul, RegularExpression.matches'_add,
    RegularExpression.matches'_epsilon, Language.mem_mul, Language.mem_add, Language.mem_one, mem_char]
  constructor
  · rintro ⟨_, rfl | rfl, unsigned, written, rfl⟩
    · exact .inl written
    · exact .inr ⟨unsigned, written, rfl⟩
  · rintro (written | ⟨unsigned, written, rfl⟩)
    · exact ⟨[], .inl rfl, cs, written, rfl⟩
    · exact ⟨['-'], .inr rfl, unsigned, written, rfl⟩

/-! ### The reader -/

theorem areDigits_iff_mem : areDigits cs = true ↔ cs ∈ digits.matches' := by
  rw [mem_digits, areDigits_iff]

/-- Behind the sign, the reader cuts where the pattern does. -/
theorem isUnsigned_iff_mem : isUnsigned cs = true ↔ cs ∈ unsignedPattern.matches' := by
  simp only [isUnsigned_iff, mem_unsignedPattern, areDigits_iff_mem]
  refine or_congr_right ⟨?_, ?_⟩
  · rintro ⟨whole, fraction, front, behind, same⟩
    exact ⟨whole, front, fraction, behind, same⟩
  · rintro ⟨whole, front, fraction, behind, same⟩
    exact ⟨whole, fraction, front, behind, same⟩

/-- No text of the pattern without a sign begins with one. -/
theorem not_mem_of_minus : '-' :: cs ∉ unsignedPattern.matches' := by
  have noDigit : ¬ Char.isDigit '-' = true := by decide
  rw [mem_unsignedPattern]
  rintro (front | ⟨whole, front, fraction, -, same⟩)
  · exact noDigit ((mem_digits.mp front).2 '-' List.mem_cons_self)
  · obtain ⟨nonempty, all⟩ := mem_digits.mp front
    obtain ⟨c, more, rfl⟩ := List.exists_cons_of_ne_nil nonempty
    cases same
    exact noDigit (all '-' List.mem_cons_self)

/-- **The reader accepts the pattern.** -/
theorem isDecimal_iff_mem : isDecimal cs = true ↔ cs ∈ pattern.matches' := by
  rw [mem_pattern]
  unfold isDecimal
  split
  · rename_i unsigned
    rw [isUnsigned_iff_mem, or_iff_right not_mem_of_minus]
    simp
  · rename_i noSign
    rw [isUnsigned_iff_mem, or_iff_left]
    rintro ⟨unsigned, -, rfl⟩
    exact noSign unsigned rfl

end

theorem ofString?_eq_some_iff {s : String} {d : Decimal} : ofString? s = some d ↔ d.text = s := by
  constructor
  · intro read
    unfold ofString? at read
    split at read <;> cases read
    rfl
  · rintro rfl
    exact ofString?_text d

theorem exists_ofString?_iff {s : String} : (∃ d, ofString? s = some d) ↔ s.toList ∈ pattern.matches' := by
  rw [← isDecimal_iff_mem]
  constructor
  · rintro ⟨d, read⟩
    rw [← ofString?_eq_some_iff.mp read]
    exact d.wellFormed
  · exact fun written => ⟨⟨s, written⟩, dif_pos written⟩

/-! ### The number -/

/-- A decimal is read as a number. -/
theorem read?_text (d : Decimal) : Binary64.read? d.text.toList = some d.toBinary64 := by
  obtain ⟨negative, digits, s, text, written⟩ := signed_of_isDecimal d.wellFormed
  rw [toBinary64, text, Binary64.read?, written.read?]
  rfl

/-- **Decimals are exact.** A text is accepted as a decimal exactly if it matches the pattern, and it is kept as it
is. Every decimal is read as a number, so what would stand for one that is not never does; the number is not NaN,
and it is the one by which the text is compared. -/
theorem decimals_exact :
    (∀ s : String, (∃ d, ofString? s = some d) ↔ s.toList ∈ pattern.matches') ∧
      (∀ (s : String) (d : Decimal), ofString? s = some d ↔ d.text = s) ∧
      ∀ d : Decimal, Binary64.read? d.text.toList = some d.toBinary64 ∧ d.toBinary64 ≠ .nan ∧
        (Value.decimal d).comparable = .ok d.toBinary64 ∧ (Value.string d.text).comparable = .ok d.toBinary64 := by
  refine ⟨fun s => exists_ofString?_iff, fun s d => ofString?_eq_some_iff, fun d => ?_⟩
  refine ⟨d.read?_text, d.toBinary64_ne_nan, Value.comparable_eq_ok_iff.mpr rfl, Value.comparable_eq_ok_iff.mpr ?_⟩
  rw [Value.comparable?, d.numericText?_text, Option.some_or]

end Decimal
end RecordRules
