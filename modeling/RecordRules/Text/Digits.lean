/-
# Digits

Natural numbers as texts of digits, which the modules for numbers, dates, paths
and limits share, and the powers that bound them.

Key definitions: `natural?`, `word64?`, `hexDigit?`. Key theorem:
`ofDigitChars_lt`.
-/

namespace RecordRules

-- One power of numbers, that of the core library, also beside a library that has its own. It is found by the
-- type of the exponent, so numerals as exponents are marked as natural numbers.
scoped instance (priority := 20000) corePower {α : Type} [NatPow α] : Pow α Nat := instPowNat

namespace Text

/-- The value of a text of one or more digits. -/
def natural? (cs : List Char) : Option Nat :=
  if !cs.isEmpty && cs.all Char.isDigit then some (Nat.ofDigitChars 10 cs 0) else none

/-- The value of a text of digits, behind a plus sign if wanted, that fits in 64 bits. -/
def word64? (cs : List Char) : Option Nat :=
  let digits := match cs with
    | '+' :: rest => rest
    | _ => cs
  (natural? digits).filter fun n => n < 2 ^ (64 : Nat)

/-- The value of a hexadecimal digit. -/
def hexDigit? (c : Char) : Option Nat :=
  if c.isDigit then some (c.toNat - 48)
  else if 'a' ≤ c ∧ c ≤ 'f' then some (c.toNat - 87)
  else if 'A' ≤ c ∧ c ≤ 'F' then some (c.toNat - 55)
  else none

theorem digit_value_lt {c : Char} (h : c.isDigit = true) : c.toNat - '0'.toNat < 10 := by
  simp only [Char.isDigit, ge_iff_le, Bool.and_eq_true, decide_eq_true_eq] at h
  have upper : c.toNat ≤ 57 := h.2
  have : '0'.toNat = 48 := rfl
  omega

/-- A text of digits stands for a number below ten to the power of its length. -/
theorem ofDigitChars_lt {cs : List Char} (h : cs.all Char.isDigit = true) :
    Nat.ofDigitChars 10 cs 0 < 10 ^ cs.length := by
  suffices ∀ start, Nat.ofDigitChars 10 cs start < 10 ^ cs.length * (start + 1) by
    simpa using this 0
  induction cs with
  | nil => simp
  | cons c cs ih =>
    intro start
    simp only [List.all_cons, Bool.and_eq_true] at h
    have value := digit_value_lt h.1
    calc Nat.ofDigitChars 10 (c :: cs) start
        < 10 ^ cs.length * (10 * start + (c.toNat - '0'.toNat) + 1) := by
          rw [Nat.ofDigitChars_cons]; exact ih h.2 _
      _ ≤ 10 ^ cs.length * (10 * (start + 1)) := Nat.mul_le_mul_left _ (by omega)
      _ = 10 ^ (c :: cs).length * (start + 1) := by
          rw [List.length_cons, Nat.pow_succ, Nat.mul_assoc]

end Text
end RecordRules
