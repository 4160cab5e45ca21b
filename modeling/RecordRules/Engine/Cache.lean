/-
# Kept formulas

Formulas by the text they were parsed from. A formula that is kept carries a
serial number, by which two answers can be told to be one and the same formula
and not two that are equal. A full cache is emptied before it takes another
formula.

Key definitions: `Cache`, `Cache.find?`, `Cache.keep`.
-/
import RecordRules.Formula
import RecordRules.Keyed

namespace RecordRules

/-- A parsed formula that callers share. -/
structure Shared where
  formula : Formula
  serial : Nat

/-- Shared formulas by their text, in ascending order. -/
structure Cache where
  entries : List (String × Shared)

namespace Cache

/-- Nothing is kept. -/
def empty : Cache := ⟨[]⟩

/-- How many formulas are kept. -/
def size (cache : Cache) : Nat := cache.entries.length

/-- The formula kept for a text. -/
def find? (cache : Cache) (source : String) : Option Shared := cache.entries.lookup source

/-- Keeps one more formula, after dropping all if there are `capacity` or more. -/
def keep (cache : Cache) (capacity : Nat) (source : String) (shared : Shared) : Cache :=
  let kept := if capacity ≤ cache.size then [] else cache.entries
  ⟨Keyed.insert source shared kept⟩

end Cache
end RecordRules
