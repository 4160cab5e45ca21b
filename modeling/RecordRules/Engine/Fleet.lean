/-
# Engines that share

Several handles on engines. A clone is one more handle on the same engine, so
all clones of an engine share what it keeps; a fork is a new engine with a memory
of its own. Handles are numbered from 0 in the order they are made.

Key definitions: `Fleet`, `Fleet.clone`, `Fleet.fork`, `Fleet.run`.
-/
import RecordRules.Engine

namespace RecordRules

/-- Engines, and for each handle the number of its engine. -/
structure Fleet where
  engines : List Engine
  handles : List Nat

namespace Fleet

/-- One handle on a new engine. -/
def create (limits : Limits) : Except RuleError Fleet :=
  match Engine.create limits with
  | .ok engine => .ok ⟨[engine], [0]⟩
  | .error e => .error e

/-- The number of a handle's engine, and the engine. -/
def engine? (fleet : Fleet) (handle : Nat) : Option (Nat × Engine) := do
  let number ← fleet.handles[handle]?
  return (number, ← fleet.engines[number]?)

/-- One more handle on the engine of a handle, and its number. -/
def clone (fleet : Fleet) (handle : Nat) : Option (Nat × Fleet) := do
  let number ← fleet.handles[handle]?
  return (fleet.handles.length, { fleet with handles := fleet.handles ++ [number] })

/-- A handle on a new engine, and its number. -/
def fork (fleet : Fleet) (limits : Limits) : Except RuleError (Nat × Fleet) :=
  match Engine.create limits with
  | .ok engine =>
    .ok (fleet.handles.length,
      ⟨fleet.engines ++ [engine], fleet.handles ++ [fleet.engines.length]⟩)
  | .error e => .error e

/-- Does something with the engine of a handle. -/
def run {α : Type} (fleet : Fleet) (handle : Nat) (action : Engine → α × Engine) :
    Option (α × Fleet) := do
  let (number, engine) ← fleet.engine? handle
  let (answer, engine) := action engine
  return (answer, { fleet with engines := fleet.engines.set number engine })

end Fleet
end RecordRules
