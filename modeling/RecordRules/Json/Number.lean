/-
# Numbers in JSON texts

Numbers with a fraction are written by their shortest digits: positional, with
at least one digit behind the point, from 10^-5 up to 10^16, and with a power of
ten outside; numbers that are not finite have no text of their own and are
written as `null`.

The format does not say which binary64 number a text stands for, and not every
reader takes the nearest one: some give up the last digits of it for speed, and
may so refuse a text of the greatest numbers. How numbers are read is therefore
left open (`NumberReader`), but for what all readers agree on: only numbers that
there can be are read, and a zero is read as the zero that it is. One of them
takes any spelling that the format allows for the nearest number
(`NumberReader.nearest`); integers outside 64 bits are no integers to it, and
neither is `-0`.

Key definitions: `Number.text`, `Number.ofText?`, `NumberReader`.
-/
import RecordRules.Json.Basic
import RecordRules.Binary64.Numeral
import RecordRules.Binary64.Plain

namespace RecordRules.Json

/-! ### Writing -/

/-- One digit, the others behind a point if there are any, and the power of ten. -/
def scientific (s : Binary64.Scaled) : List Char :=
  let digits := Nat.toDigits 10 s.coefficient
  let power := s.exponent + (digits.length - 1 : Nat)
  let fraction := digits.drop 1
  digits.take 1 ++ (if fraction.isEmpty then [] else '.' :: fraction) ++
    'e' :: (if power < 0 then '-' else '+') :: Nat.toDigits 10 power.natAbs

/-- The text of a positive finite magnitude. -/
def magnitudeText (rank : Nat) : List Char :=
  let s := Binary64.shortest .even rank
  let power := s.exponent + ((Nat.toDigits 10 s.coefficient).length - 1 : Nat)
  if power < -5 ∨ 16 ≤ power then scientific s
  else if 0 ≤ s.exponent then positional s ++ ['.', '0']
  else positional s

/-- The text of a number with a fraction. -/
def floatText : Binary64 → List Char
  | .nan => "null".toList
  | .ranked negative rank =>
    if rank = Binary64.infinityRank then "null".toList
    else
      let magnitude := if rank.val = 0 then "0.0".toList else magnitudeText rank
      if negative then '-' :: magnitude else magnitude

/-- The text of a number. -/
def Number.text : Number → List Char
  | .integer n =>
    if n < 0 then '-' :: Nat.toDigits 10 n.natAbs else Nat.toDigits 10 n.natAbs
  | .float x => floatText x

/-! ### Reading -/

/-- The digits before the point: more than one only if the first is not zero. -/
def wholePart? (cs : List Char) : Option Nat :=
  if cs.length = 1 ∨ cs.head? ≠ some '0' then Text.natural? cs else none

/-- The number that a whole text is, if it is one; numbers too large for binary64 are not. -/
def Number.ofText? (cs : List Char) : Option Number := do
  let (negative, unsigned) := match cs with
    | '-' :: rest => (true, rest)
    | _ => (false, cs)
  let (whole, afterWhole) := Numeral.splitDigits unsigned
  let n ← wholePart? whole
  let inRange := if negative then 0 < n && n ≤ 2 ^ (63 : Nat) else n < 2 ^ (64 : Nat)
  if afterWhole.isEmpty && inRange then
    return .integer (if negative then -(n : Int) else n)
  let (fraction, power) := Numeral.splitFraction afterWhole
  if afterWhole.head? = some '.' && fraction.isEmpty then none
  let exponent ← Numeral.readExponent? power
  let x := Binary64.ofScaled negative (Nat.ofDigitChars 10 (whole ++ fraction) 0)
    (exponent - fraction.length)
  if x.isFinite then return .float x else none

/-! ### Readers -/

/-- A number that there can be: an integer in 64 bits, with a sign or without, or a finite number. -/
def Number.Valid : Number → Prop
  | .integer n => -2 ^ (63 : Nat) ≤ n ∧ n < 2 ^ (64 : Nat)
  | .float x => x.isFinite = true

/-- A text is only read as a number that there can be. -/
theorem Number.valid_of_ofText? {cs : List Char} {n : Number} (h : ofText? cs = some n) : n.Valid := by
  unfold ofText? at h
  split at h
  rename_i negative unsigned _
  obtain ⟨value, _, h⟩ := Option.bind_eq_some_iff.mp h
  dsimp only at h
  generalize List.dropWhile Char.isDigit unsigned = rest at h
  by_cases whole : (rest.isEmpty && if negative = true then decide (0 < value) && decide (value ≤ 2 ^ (63 : Nat))
      else decide (value < 2 ^ (64 : Nat))) = true
  · rw [if_pos whole] at h
    cases h
    obtain ⟨_, range⟩ := Bool.and_eq_true_iff.mp whole
    cases negative with
    | true =>
      simp only [if_true, Bool.and_eq_true, decide_eq_true_eq] at range
      constructor <;> simp only [if_true] <;> omega
    | false =>
      simp only [Bool.false_eq_true, if_false, decide_eq_true_eq] at range
      constructor <;> simp only [Bool.false_eq_true, if_false] <;> omega
  · rw [if_neg whole] at h
    split at h
    · cases h
    · obtain ⟨exponent, _, h⟩ := Option.bind_eq_some_iff.mp h
      split at h
      · cases h
        assumption
      · cases h

/-- A way to read the texts of numbers. -/
structure NumberReader where
  /-- The number that a whole text is, if it is taken for one. -/
  read? : List Char → Option Number
  /-- Only numbers that there can be are read. -/
  valid : ∀ {cs : List Char} {n : Number}, read? cs = some n → n.Valid
  /-- A zero is read as the zero that it is. -/
  zero : ∀ negative : Bool, read? (floatText (.ofRank negative 0)) = some (.float (.ofRank negative 0))

namespace NumberReader

/-- The nearest number, and none for what is too large. -/
def nearest : NumberReader where
  read? := Number.ofText?
  valid := Number.valid_of_ofText?
  zero := by decide

variable (numbers : NumberReader)

/-- The text of the number is read. -/
def Reads (n : Number) : Prop := (numbers.read? n.text).isSome = true

/-- The text of the number is read as that very quantity. -/
def Keeps (n : Number) : Prop := (numbers.read? n.text).map Number.toBinary64 = some n.toBinary64

end NumberReader

end RecordRules.Json
