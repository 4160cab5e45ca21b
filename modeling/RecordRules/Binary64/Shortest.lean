/-
# The shortest digits of a number

The fewest decimal digits from which reading finds the number again. On the
grid of multiples of 10^k, the point nearest to a value is one of its two
neighbours, so a grid has a point that reads back exactly when one of the two
does. The search goes from coarse grids to fine ones and takes the first
with such a point; of two, the nearer, and of two equally near the one that
the format's `Tie` prefers. Every number is a point of the grid 10^-1074, where
the search would end at the latest, so what it finds always reads back.

Key definitions: `Tie`, `shortest`. A point taken from a grid reads back (`onGrid?_rank`).
-/
import RecordRules.Binary64.Rounding

namespace RecordRules.Binary64

/-- Which of two equally near points a format takes: the upper or the even one. -/
inductive Tie where
  | up
  | even
deriving DecidableEq

/-- A coefficient and an exponent of ten. -/
structure Scaled where
  coefficient : Nat
  exponent : Int
deriving DecidableEq

/-- The value as a quotient of natural numbers. -/
def Scaled.rank (s : Scaled) : Nat :=
  rankOfRatio (s.coefficient * 10 ^ s.exponent.toNat) (10 ^ (-s.exponent).toNat)

/-- The multiples of 10^k next to the magnitude of `rank`, the preferred one first. -/
def neighbours (tie : Tie) (rank : Nat) (k : Int) : List Nat :=
  let num := units rank * 10 ^ (-k).toNat
  let den := 2 ^ (1074 : Nat) * 10 ^ k.toNat
  let below := num / den
  let rest := num % den
  let upFirst := den < 2 * rest || (2 * rest == den && (tie == .up || below % 2 == 1))
  if upFirst then [below + 1, below] else [below, below + 1]

/-- The preferred multiple of 10^k that reads back as `rank`, if there is one. -/
def onGrid? (tie : Tie) (rank : Nat) (k : Int) : Option Scaled :=
  ((neighbours tie rank k).map fun c => Scaled.mk c k).find? fun s => s.rank == rank

/-- The first grid with a point that reads back, from 10^k on; `tries` grids are looked at
before the one that holds every magnitude. -/
def firstGrid (tie : Tie) (rank : Nat) : Nat → Int → Scaled
  | 0, _ => ⟨units rank * 5 ^ (1074 : Nat), -1074⟩
  | tries + 1, k => (onGrid? tie rank k).getD (firstGrid tie rank tries (k - 1))

/-- An exponent with 10^k at or above the magnitude, at most two above the least such one. The
fraction exceeds the logarithm of two. -/
def ceilingExponent (rank : Nat) : Int :=
  ((Nat.log2 (units rank) : Int) - 1073) * 30103 / 100000 + 1

/-- The shortest digits of a positive finite rank: at most seventeen, so the grids looked at
reach far enough down. -/
def shortest (tie : Tie) (rank : Nat) : Scaled :=
  firstGrid tie rank 24 (ceilingExponent rank)

theorem onGrid?_rank {tie : Tie} {rank : Nat} {k : Int} {s : Scaled} (h : onGrid? tie rank k = some s) :
    s.rank = rank := by
  have := List.find?_some h
  simpa using this

end RecordRules.Binary64
