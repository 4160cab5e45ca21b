/-
# Limits

What an engine allows of expressions that it does not trust, and how many parsed
ones it keeps. Limits come from JSON, from a document in the TOML notation, or
from the environment; what is not stated takes its default.

Key definitions: `Limits`, `Limits.default`, `Limits.validate`,
`Limits.ofJson?`, `Limits.ofEnvironment`.
-/
import RecordRules.Error
import RecordRules.Json.Basic

namespace RecordRules

/-- The limits of an engine. -/
structure Limits where
  /-- The most bytes an expression may have. -/
  maxSourceLength : Nat
  /-- The most brackets that may be open at once. -/
  maxNestingDepth : Nat
  /-- The most parsed expressions that are kept; none are kept at 0. -/
  cacheCapacity : Nat
deriving DecidableEq

namespace Limits

/-- The limits where nothing is stated. -/
def default : Limits := ⟨4096, 32, 1024⟩

/-- The error of a limit that must not be zero. -/
def mustBePositive (field : String) : LimitsError :=
  .invalidValue field "0" s!"{field} must be greater than 0"

/-- Limits that admit no expression at all are refused. -/
def validate (limits : Limits) : Except LimitsError Unit :=
  if limits.maxSourceLength = 0 then .error (mustBePositive "max_source_len")
  else if limits.maxNestingDepth = 0 then .error (mustBePositive "max_nesting_depth")
  else .ok ()

/-! ### Storage -/

/-- The members of stored limits. -/
def memberNames : List String := ["max_source_len", "max_nesting_depth", "cache_capacity"]

/-- Limits as JSON. -/
def toJson (limits : Limits) : Json :=
  .object [("max_source_len", .nat limits.maxSourceLength),
    ("max_nesting_depth", .nat limits.maxNestingDepth),
    ("cache_capacity", .nat limits.cacheCapacity)]

/-- A limit that may be absent. -/
def limitOfJson? (fallback : Nat) : Option Json → Option Nat
  | none => some fallback
  | some j => j.nat?

/-- The limits that a JSON value stores. -/
def ofJson? (j : Json) : Option Limits := do
  match ← j.fields? memberNames true with
  | [length, depth, capacity] =>
    return ⟨← limitOfJson? default.maxSourceLength length,
      ← limitOfJson? default.maxNestingDepth depth,
      ← limitOfJson? default.cacheCapacity capacity⟩
  | _ => none

/-! ### Environment -/

/-- A limit from a variable; an absent one and one that is no number leave the default. -/
def limitOfVariable (fallback : Nat) (setting : Option String) : Nat :=
  (setting.bind fun text => Text.word64? text.toList).getD fallback

/-- The limits that the variables of the environment state. -/
def ofEnvironment (lookup : String → Option String) : Limits :=
  ⟨limitOfVariable default.maxSourceLength (lookup "RULEGATE_MAX_SOURCE_LEN"),
    limitOfVariable default.maxNestingDepth (lookup "RULEGATE_MAX_NESTING_DEPTH"),
    limitOfVariable default.cacheCapacity (lookup "RULEGATE_CACHE_CAPACITY")⟩

/-! ### Text -/

/-- The limits as a log shows them. -/
def summary (limits : Limits) : String :=
  s!"EngineConfig \x7b max_source_len: {limits.maxSourceLength}, max_nesting_depth: {limits.maxNestingDepth}, cache_capacity: {limits.cacheCapacity} \x7d"

end Limits
end RecordRules
