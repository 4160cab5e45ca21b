/-
# Sessions

What callers do with an engine and its clones, one call after the other. A call
goes through a handle and gets a reply; it may change what the engine keeps, and
so what all handles on that engine meet afterwards. An event without a handle that
exists changes nothing.

Key definitions: `Call`, `Reply`, `Engine.respond`, `Fleet.Event`, `Fleet.after`,
`Fleet.reply?`.
-/
import RecordRules.Engine.Fleet

namespace RecordRules

/-- What a caller asks of an engine. -/
inductive Call where
  | parse (source : String)
  | evaluate (source : String) (change : Change) (guard : Option Guard)
  | evaluateRule (rule : Rule) (change : Change) (guard : Option Guard)
  | clearCache
  | cachedCount

/-- What an engine replies. -/
inductive Reply where
  | parsed (result : Except RuleError Shared)
  | verdict (verdict : Verdict)
  | cleared
  | count (kept : Nat)

/-- The reply to a call, and the engine afterwards. -/
def Engine.respond (engine : Engine) : Call → Reply × Engine
  | .parse source =>
    let (result, engine) := engine.parse source
    (.parsed result, engine)
  | .evaluate source change guard =>
    let (verdict, engine) := engine.evaluate source change guard
    (.verdict verdict, engine)
  | .evaluateRule rule change guard =>
    let (verdict, engine) := engine.evaluateRule rule change guard
    (.verdict verdict, engine)
  | .clearCache => (.cleared, engine.clearCache)
  | .cachedCount => (.count engine.cachedCount, engine)

namespace Fleet

/-- A call through a handle, or one more handle. -/
inductive Event where
  | call (handle : Nat) (call : Call)
  | clone (handle : Nat)

/-- The engines after an event. -/
def next (fleet : Fleet) : Event → Fleet
  | .call handle call => ((fleet.run handle fun engine => engine.respond call).map Prod.snd).getD fleet
  | .clone handle => ((fleet.clone handle).map Prod.snd).getD fleet

/-- The engines after a history of events. -/
def after (fleet : Fleet) (history : List Event) : Fleet := history.foldl next fleet

/-- The reply to a call through a handle, if there is such a handle. -/
def reply? (fleet : Fleet) (handle : Nat) (call : Call) : Option Reply :=
  (fleet.run handle fun engine => engine.respond call).map Prod.fst

end Fleet
end RecordRules
