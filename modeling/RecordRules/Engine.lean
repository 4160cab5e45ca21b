/-
# The engine

Parsing and evaluation within limits, for expressions that are not trusted. An
engine keeps what it has parsed. Parsing is two steps on its memory with the
parsing itself between them: looking the text up (`Engine.kept?`) and keeping
the new formula (`Engine.remember`). Nothing but a formula that was parsed from
its own text within the limits is ever kept, so what an engine answers does not
depend on what it has been asked before.

Key definitions: `Engine`, `Engine.create`, `Engine.parse`, `Engine.evaluate`,
`Engine.evaluateRule`.
-/
import RecordRules.Engine.Cache
import RecordRules.Evaluate
import RecordRules.Limits
import RecordRules.Rule

namespace RecordRules

/-- An engine: its limits, what it keeps, and the serial number of the next formula. -/
structure Engine where
  limits : Limits
  cache : Cache
  nextSerial : Nat

namespace Engine

/-- A new engine, if the limits can be used. -/
def create (limits : Limits) : Except RuleError Engine :=
  match limits.validate with
  | .ok () => .ok ⟨limits, .empty, 0⟩
  | .error e => .error (.limits e)

/-- The formula kept for a text; an engine without room keeps none. -/
def kept? (engine : Engine) (source : String) : Option Shared :=
  if 0 < engine.limits.cacheCapacity then engine.cache.find? source else none

/-- Keeps a formula, if there is room for any. -/
def remember (engine : Engine) (source : String) (shared : Shared) : Engine :=
  if 0 < engine.limits.cacheCapacity then
    { engine with cache := engine.cache.keep engine.limits.cacheCapacity source shared }
  else
    engine

/-- Why the limits refuse a text unread, if they do. -/
def refusal? (limits : Limits) (source : String) : Option RuleError :=
  if limits.maxSourceLength < source.utf8ByteSize then
    some (.sourceTooLong source.utf8ByteSize limits.maxSourceLength)
  else
    none

/-- The formula of a text, kept from before or parsed now, and the engine afterwards. -/
def parse (engine : Engine) (source : String) : Except RuleError Shared × Engine :=
  match refusal? engine.limits source with
  | some e => (.error e, engine)
  | none =>
    match engine.kept? source with
    | some shared => (.ok shared, engine)
    | none =>
      match Formula.parseWithin (some engine.limits.maxNestingDepth) source with
      | .error e => (.error (.parse e), engine)
      | .ok formula =>
        let shared : Shared := ⟨formula, engine.nextSerial⟩
        (.ok shared, { engine.remember source shared with nextSerial := engine.nextSerial + 1 })

/-- Whether the expression of a text holds for a change. -/
def evaluate (engine : Engine) (source : String) (change : Change) (guard : Option Guard) :
    Verdict × Engine :=
  match engine.parse source with
  | (.ok shared, engine) => (shared.formula.evaluate change guard, engine)
  | (.error e, engine) => (⟨.error e, []⟩, engine)

/-- Whether a stored rule applies to a change. -/
def evaluateRule (engine : Engine) (rule : Rule) (change : Change) (guard : Option Guard) :
    Verdict × Engine :=
  match rule.condition? with
  | some source => engine.evaluate source change guard
  | none => (⟨.ok true, []⟩, engine)

/-- How many formulas are kept. -/
def cachedCount (engine : Engine) : Nat := engine.cache.size

/-- Forgets every formula. -/
def clearCache (engine : Engine) : Engine := { engine with cache := .empty }

/-- The engine as a log shows it. -/
def summary (engine : Engine) : String :=
  s!"RuleEngine \x7b config: {engine.limits.summary}, .. \x7d"

end Engine
end RecordRules
