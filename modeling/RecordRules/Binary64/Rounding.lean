/-
# Rounding to binary64

The number nearest to a quotient of natural numbers, a half going to the even
neighbour. On the finest grid the quotient has an integer part; its length in
bits says how often the grid has to double before 53 bits suffice, and the
rank is that many binades plus the quotient rounded on the coarser grid. A
round up past the last place of a binade lands on the first of the next, for
their ranks are neighbours. Everything hangs on the quotient alone:
`rankOfRatio_scale` says that a common factor cancels.

Key definitions: `roundHalfEven`, `rankOfRatio`, `ofScaled`, `ofInt`.
-/
import RecordRules.Binary64.Basic

namespace RecordRules.Binary64

/-- The quotient rounded to the nearest integer, a half to the even neighbour. -/
def roundHalfEven (num den : Nat) : Nat :=
  let floor := num / den
  let rest := num % den
  if 2 * rest < den then floor
  else if den < 2 * rest then floor + 1
  else floor + floor % 2

/-- The rank nearest to the quotient. -/
def rankOfRatio (num den : Nat) : Nat :=
  let fine := num * 2 ^ (1074 : Nat)
  let doubled := Nat.log2 (fine / den) - 52
  min infinityRank (doubled * 2 ^ (52 : Nat) + roundHalfEven fine (den * 2 ^ doubled))

/-- The rank nearest to `coefficient · 10^exponent`. A value that is certainly beyond the last
finite rank, or certainly below half a unit, is settled without the power of ten. -/
def rankOfScaled (coefficient : Nat) (exponent : Int) : Nat :=
  if coefficient = 0 then 0
  else if 400 < exponent then infinityRank
  else if Nat.log2 coefficient + 1100 < 3 * (-exponent).toNat then 0
  else rankOfRatio (coefficient * 10 ^ exponent.toNat) (10 ^ (-exponent).toNat)

/-- The number nearest to `coefficient · 10^exponent`, with that sign. -/
def ofScaled (negative : Bool) (coefficient : Nat) (exponent : Int) : Binary64 :=
  ofRank negative (rankOfScaled coefficient exponent)

/-- The number nearest to an integer. -/
def ofInt (n : Int) : Binary64 := ofRank (n < 0) (rankOfRatio n.natAbs 1)

theorem roundHalfEven_scale {num den factor : Nat} (h : 0 < factor) :
    roundHalfEven (num * factor) (den * factor) = roundHalfEven num den := by
  have div : num * factor / (den * factor) = num / den := Nat.mul_div_mul_right num den h
  have mod : num * factor % (den * factor) = num % den * factor := Nat.mul_mod_mul_right factor num den
  unfold roundHalfEven
  simp only [div, mod, ← Nat.mul_assoc, Nat.mul_lt_mul_right h]

/-- **A common factor cancels.** -/
theorem rankOfRatio_scale {num den factor : Nat} (h : 0 < factor) :
    rankOfRatio (num * factor) (den * factor) = rankOfRatio num den := by
  have fine : num * factor * 2 ^ (1074 : Nat) = num * 2 ^ (1074 : Nat) * factor := Nat.mul_right_comm ..
  unfold rankOfRatio
  simp only [fine, Nat.mul_div_mul_right _ _ h, Nat.mul_right_comm den factor, roundHalfEven_scale h]

end RecordRules.Binary64
