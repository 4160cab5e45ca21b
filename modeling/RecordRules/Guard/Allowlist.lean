/-
# Allowlists

The field paths that expressions may refer to. An entry is a path, or a path
followed by `.*`, which stands for all paths below it but not for the path
itself. The order of entries and their repetition mean nothing.

Key definitions: `Allowlist`, `Allowlist.ofList`, `Allowlist.permits`.
-/
import RecordRules.Guard

namespace RecordRules

/-- The permitted paths, and the paths below which everything is permitted. -/
structure Allowlist where
  exact : NameSet
  below : NameSet
deriving DecidableEq

namespace Allowlist

/-- No path is permitted. -/
def empty : Allowlist := ⟨.empty, .empty⟩

/-- No entry. -/
def isEmpty (list : Allowlist) : Bool := list.exact.toList.isEmpty && list.below.toList.isEmpty

/-- The path before a final `.*`. -/
def wildcard? (entry : List Char) : Option (List Char) :=
  match entry.reverse with
  | '*' :: '.' :: before => some before.reverse
  | _ => none

/-- One more entry. -/
def allow (list : Allowlist) (entry : String) : Allowlist :=
  match wildcard? entry.toList with
  | some before => { list with below := list.below.insert (String.ofList before) }
  | none => { list with exact := list.exact.insert entry }

/-- The allowlist of those entries. -/
def ofList (entries : List String) : Allowlist := entries.foldl allow empty

/-- The path is the other one, a point, and something more. -/
def isBelow (path top : List Char) : Bool :=
  top.isPrefixOf path &&
    match path.drop top.length with
    | '.' :: _ :: _ => true
    | _ => false

/-- An entry permits the path. -/
def permits (list : Allowlist) (path : String) : Bool :=
  path ∈ list.exact || list.below.toList.any fun top => isBelow path.toList top.toList

/-- The guard that refuses what no entry permits. -/
def guard (list : Allowlist) : Guard := fun path =>
  if list.permits path then none else some (.notAllowed path)

end Allowlist
end RecordRules
