/-
# Instants

A point of universal time: whole seconds since 1970 and nanoseconds within the
second. A leap second is the continuation of the second before it, so its
nanoseconds run from one to two thousand millions.

Key definitions: `Instant`, `Instant.millis`, `Instant.ofMillis`.
-/
import RecordRules.Instant.Calendar
import RecordRules.Text.Digits

namespace RecordRules

/-- A point of universal time. -/
structure Instant where
  seconds : Int
  nanos : Nat
  nanos_lt : nanos < 2 * 10 ^ (9 : Nat)
deriving DecidableEq

namespace Instant

/-- Milliseconds since 1970, rounded towards the past. -/
def millis (t : Instant) : Int := t.seconds * 1000 + (t.nanos / 10 ^ (6 : Nat) : Nat)

/-- The instant that many milliseconds after 1970 began. -/
def ofMillis (millis : Int) : Instant :=
  ⟨millis / 1000, (millis % 1000).toNat * 10 ^ (6 : Nat), by omega⟩

/-- The days since 1 January 1970. -/
def days (t : Instant) : Int := t.seconds / 86400

/-- The second of the day. -/
def secondOfDay (t : Instant) : Nat := (t.seconds % 86400).toNat

/-- Midnight at the start of a day. -/
def ofDate (date : Date) : Instant := ⟨date.toDays * 86400, 0, by decide⟩

theorem millis_ofMillis (m : Int) : (ofMillis m).millis = m := by
  unfold millis ofMillis
  simp only [Nat.mul_div_cancel _ (show 0 < 10 ^ (6 : Nat) by decide)]
  omega

end Instant
end RecordRules
