/-
# Calls that overlap

Several callers on clones of one engine, each in the midst of a call of its own. The
memory of an engine is locked for a moment only: to look a text up, to keep a formula, to
forget all of them, to count them. In between a caller is on its own, and while it parses
what it has not found, others may keep the same text, fill the memory or empty it. A step
is what one caller does at once; steps come in any order.

A call that needs the formula of a text takes up to four steps: the text is admitted, it
is looked up, it is parsed if it was not found, and the formula is kept. All other calls
take one.

Key definitions: `Caller`, `Caller.advance`, `Crowd`, `Crowd.next`, `Crowd.after`.
-/
import RecordRules.Engine.Session

namespace RecordRules

/-! ### What calls need -/

/-- What a call is after with the formula of a text. -/
inductive Purpose where
  | share
  | judge (change : Change) (guard : Option Guard)

/-- The reply, once the text is read or refused. -/
def Purpose.reply : Purpose → Except RuleError Shared → Reply
  | .share, result => .parsed result
  | .judge change guard, .ok shared => .verdict (shared.formula.evaluate change guard)
  | .judge _ _, .error e => .verdict ⟨.error e, []⟩

/-- The text that has to be read for a call, and what for. -/
def Call.need? : Call → Option (String × Purpose)
  | .parse source => some (source, .share)
  | .evaluate source change guard => some (source, .judge change guard)
  | .evaluateRule rule change guard => rule.condition?.map fun source => (source, .judge change guard)
  | .clearCache => none
  | .cachedCount => none

/-- A call that needs a text. -/
structure Errand where
  call : Call
  source : String
  purpose : Purpose
  need : call.need? = some (source, purpose)

/-! ### Callers -/

/-- How far a caller has come with its call. -/
inductive Stage where
  /-- There is no call. -/
  | idle
  /-- The text is not too long and is looked up next. -/
  | looking (errand : Errand)
  /-- The text was not kept and is parsed next. -/
  | reading (errand : Errand)
  /-- The formula is kept next. -/
  | keeping (errand : Errand) (shared : Shared)

/-- A caller: its handle, the calls it is going to make, its call, and the calls it made with the replies. -/
structure Caller where
  handle : Nat
  script : List Call
  stage : Stage
  log : List (Call × Reply)

namespace Caller

/-- The reply to a call has come. -/
def settle (caller : Caller) (call : Call) (reply : Reply) : Caller :=
  { caller with stage := .idle, log := caller.log ++ [(call, reply)] }

/-- The text that a call needs has been read, or refused. -/
def finish (caller : Caller) (errand : Errand) (result : Except RuleError Shared) : Caller :=
  caller.settle errand.call (errand.purpose.reply result)

/-- Makes a call. It ends at once if it needs no text, or one that is too long. -/
def start (caller : Caller) (call : Call) (engine : Engine) : Caller × Engine :=
  match need : call.need? with
  | none =>
    let (reply, engine) := engine.respond call
    (caller.settle call reply, engine)
  | some (source, purpose) =>
    let errand : Errand := ⟨call, source, purpose, need⟩
    match Engine.refusal? engine.limits source with
    | some e => (caller.finish errand (.error e), engine)
    | none => ({ caller with stage := .looking errand }, engine)

/-- A step of a caller, and the engine afterwards. -/
def advance (caller : Caller) (engine : Engine) : Caller × Engine :=
  match caller.stage with
  | .idle =>
    match caller.script with
    | [] => (caller, engine)
    | call :: script => start { caller with script } call engine
  | .looking errand =>
    match engine.kept? errand.source with
    | some shared => (caller.finish errand (.ok shared), engine)
    | none => ({ caller with stage := .reading errand }, engine)
  | .reading errand =>
    match Formula.parseWithin (some engine.limits.maxNestingDepth) errand.source with
    | .error e => (caller.finish errand (.error (.parse e)), engine)
    | .ok formula =>
      -- a formula is told from all others from now on, whether it will be kept or not
      ({ caller with stage := .keeping errand ⟨formula, engine.nextSerial⟩ },
        { engine with nextSerial := engine.nextSerial + 1 })
  | .keeping errand shared => (caller.finish errand (.ok shared), engine.remember errand.source shared)

end Caller

/-! ### Crowds -/

/-- Engines with their handles, and the callers on them. -/
structure Crowd where
  fleet : Fleet
  callers : List Caller

namespace Crowd

/-- A new engine, and nobody who calls it. -/
def create (limits : Limits) : Except RuleError Crowd :=
  match Fleet.create limits with
  | .ok fleet => .ok ⟨fleet, []⟩
  | .error e => .error e

/-- What happens next: a caller with calls to make joins on a clone of a handle, or a caller takes a step. -/
inductive Event where
  | join (handle : Nat) (script : List Call)
  | advance (number : Nat)

/-- The crowd after an event; one of which the handle or the caller is missing changes nothing. -/
def next (crowd : Crowd) : Event → Crowd
  | .join handle script =>
    match crowd.fleet.clone handle with
    | some (handle, fleet) => ⟨fleet, crowd.callers ++ [⟨handle, script, .idle, []⟩]⟩
    | none => crowd
  | .advance number =>
    match crowd.callers[number]? with
    | some caller =>
      match crowd.fleet.run caller.handle caller.advance with
      | some (caller, fleet) => ⟨fleet, crowd.callers.set number caller⟩
      | none => crowd
    | none => crowd

/-- The crowd after a schedule of events. -/
def after (crowd : Crowd) (schedule : List Event) : Crowd := schedule.foldl next crowd

end Crowd
end RecordRules
