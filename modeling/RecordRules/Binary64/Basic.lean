/-
# Binary64 numbers

Double precision numbers as points of a line. A number that is not NaN has a
sign and a *rank*: its place among the magnitudes in ascending order, zero
having rank 0 and infinity the last one. Equality and order are those of the
signed rank (`key`), in which the two zeros are one point and NaN has none, so
they need no arithmetic on reals.

The magnitude of a finite rank is a whole number of *units*, the unit being
the least positive magnitude, 2^-1074: the ranks below 2^53 are their own
unit count, and each further 2^52 of them double the distance between
neighbours.

Key definitions: `Binary64`, `key`, `eq`, `lt`, `le`, `units`, `ofBits`, `toBits`.
-/
import RecordRules.Text.Digits

namespace RecordRules

/-- The rank of infinity: the finite magnitudes are the ranks below it. -/
def Binary64.infinityRank : Nat := 0x7FF * 2 ^ (52 : Nat)

/-- A double precision number: NaN, or a sign and the rank of a magnitude. -/
inductive Binary64 where
  | nan
  | ranked (negative : Bool) (rank : Fin (Binary64.infinityRank + 1))
deriving DecidableEq

namespace Binary64

/-- The number of that sign and rank; ranks past infinity are infinity. -/
def ofRank (negative : Bool) (rank : Nat) : Binary64 :=
  .ranked negative ⟨min rank infinityRank, by omega⟩

/-- Infinity of that sign. -/
def infinity (negative : Bool) : Binary64 := ofRank negative infinityRank

/-- The number whose encoding is that word: the sign in bit 63, the rank in the bits below it;
ranks past infinity encode NaN. -/
def ofBits (word : Nat) : Binary64 :=
  let rank := word % 2 ^ (63 : Nat)
  if rank ≤ infinityRank then ofRank (2 ^ (63 : Nat) ≤ word) rank else nan

/-- The encoding of the number as a word; NaN is the one with the first payload bit alone. -/
def toBits : Binary64 → Nat
  | nan => infinityRank + 2 ^ (51 : Nat)
  | ranked negative rank => (if negative then 2 ^ (63 : Nat) else 0) + rank

/-! ### Equality and order -/

/-- The place of the number on the line; NaN has none. -/
def key : Binary64 → Option Int
  | nan => none
  | ranked negative rank => some (if negative then -(rank.val : Int) else rank.val)

/-- A relation of places, which NaN never satisfies. -/
def related (rel : Int → Int → Bool) (a b : Binary64) : Bool :=
  match a.key, b.key with
  | some x, some y => rel x y
  | _, _ => false

/-- The same point of the line: the two zeros are equal, NaN equals nothing. -/
def eq (a b : Binary64) : Bool := related (fun x y => x == y) a b

/-- Strictly to the left. -/
def lt (a b : Binary64) : Bool := related (fun x y => decide (x < y)) a b

/-- To the left or equal. -/
def le (a b : Binary64) : Bool := related (fun x y => decide (x ≤ y)) a b

/-- The number is NaN. -/
def isNaN : Binary64 → Bool
  | nan => true
  | ranked _ _ => false

/-- The number is neither NaN nor an infinity. -/
def isFinite : Binary64 → Bool
  | nan => false
  | ranked _ rank => rank.val < infinityRank

/-- The number is one of the two zeros. -/
def isZero : Binary64 → Bool
  | nan => false
  | ranked _ rank => rank.val == 0

theorem isNaN_iff_key {a : Binary64} : a.isNaN = true ↔ a.key = none := by
  cases a <;> simp [isNaN, key]

theorem isZero_iff_key {a : Binary64} : a.isZero = true ↔ a.key = some 0 := by
  cases a with
  | nan => simp [isZero, key]
  | ranked negative rank => cases negative <;> simp [isZero, key]

theorem eq_iff {a b : Binary64} : eq a b = true ↔ ∃ x, a.key = some x ∧ b.key = some x := by
  cases ha : a.key <;> cases hb : b.key <;> simp [eq, related, ha, hb]
  exact eq_comm

theorem eq_self_iff {a : Binary64} : eq a a = true ↔ a.isNaN = false := by
  cases a <;> simp [eq, related, key, isNaN]

/-! ### Magnitudes -/

/-- How often the distance between neighbours has doubled at that rank. -/
def doublings (rank : Nat) : Nat := rank / 2 ^ (52 : Nat) - 1

/-- The magnitude of a finite rank, counted in units of 2^-1074. -/
def units (rank : Nat) : Nat := (rank - doublings rank * 2 ^ (52 : Nat)) * 2 ^ doublings rank

/-- A small rank is its own count of units. -/
theorem units_of_lt {rank : Nat} (h : rank < 2 ^ (53 : Nat)) : units rank = rank := by
  have : doublings rank = 0 := by unfold doublings; omega
  simp [units, this]

end Binary64
end RecordRules
