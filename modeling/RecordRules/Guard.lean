/-
# Guards

A guard decides which fields an expression may refer to. It is asked about every
field path that the expression names, in ascending order and before any field is
read, until it refuses one. A refusal says why: the path is not on an allowlist,
or whatever a host has to say.

Key definitions: `Rejection`, `Guard`, `Guard.check`.
-/
import RecordRules.NameSet

namespace RecordRules

/-- Why a guard refuses a path. -/
inductive Rejection where
  /-- No entry of an allowlist permits the path. -/
  | notAllowed (path : String)
  /-- A host refuses it in its own words. -/
  | host (text : String)
deriving DecidableEq

/-- The wording of a rejection. -/
def Rejection.message : Rejection → String
  | notAllowed path => s!"Field '{path}' is not allowed in rule expressions"
  | host text => text

/-- The reason to refuse a path, or none. -/
abbrev Guard := String → Option Rejection

/-- What a guard answers about some paths: those it was asked about, in order, and the first that
it refused with the reason. -/
structure Guard.Answer where
  asked : List String
  refused : Option (String × Rejection)
deriving DecidableEq

namespace Guard

/-- Asks about one path after the other, up to the first that is refused. -/
def askAll (guard : Guard) : List String → Answer
  | [] => ⟨[], none⟩
  | path :: rest =>
    match guard path with
    | some reason => ⟨[path], some (path, reason)⟩
    | none =>
      let answer := askAll guard rest
      ⟨path :: answer.asked, answer.refused⟩

/-- Asks about every member of a set. -/
def check (guard : Guard) (paths : NameSet) : Answer := guard.askAll paths.toList

/-- Refuses what the first guard refuses, and of the rest what the second does. -/
def andThen (first second : Guard) : Guard := fun path => (first path).or (second path)

end Guard
end RecordRules
