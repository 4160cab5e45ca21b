/-
# The plain text of a number

How a number reads on its own, outside JSON: integers below 10^15 without a
point, every other finite number by its shortest digits in positional
notation, never with a power of ten, and words for NaN and the infinities.
Zero has no sign here.

Key definitions: `positional`, `Binary64.plain`.
-/
import RecordRules.Binary64.Shortest

namespace RecordRules

/-- Positional notation: zeros fill up to the point, and there is a point only before a digit. -/
def positional (s : Binary64.Scaled) : List Char :=
  let digits := Nat.toDigits 10 s.coefficient
  if 0 ≤ s.exponent then
    digits ++ List.replicate s.exponent.toNat '0'
  else
    let places := (-s.exponent).toNat
    let padded := List.replicate (places + 1 - digits.length) '0' ++ digits
    let whole := padded.length - places
    padded.take whole ++ '.' :: padded.drop whole

namespace Binary64

/-- Integers at or above this magnitude are written by their shortest digits. -/
def exactLimit : Nat := 10 ^ (15 : Nat)

/-- The text of a positive magnitude or of zero. -/
def plainMagnitude (rank : Nat) : List Char :=
  if rank = infinityRank then
    "Infinity".toList
  else if units rank % 2 ^ (1074 : Nat) = 0 ∧ units rank / 2 ^ (1074 : Nat) < exactLimit then
    Nat.toDigits 10 (units rank / 2 ^ (1074 : Nat))
  else
    positional (shortest .up rank)

/-- The plain text. -/
def plain : Binary64 → List Char
  | nan => "NaN".toList
  | ranked negative rank =>
    if negative && rank.val != 0 then '-' :: plainMagnitude rank else plainMagnitude rank

end Binary64
end RecordRules
