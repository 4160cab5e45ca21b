/-
# What a session keeps and shares

An engine keeps the formula of a text from when it is first read until the engine is told to
forget all, or is full when one more text comes; then all formulas go, and the new one stays
alone. A call does no more to the memory than that (`Engine.Leaves`): it leaves all as it was,
empties it, or keeps a formula that it has just read. A call that cannot read its text leaves
all as it was, and one whose evaluation fails leaves what reading its text leaves.

Callers that read one text twice share a formula, and do not hold two that are equal, exactly
if the text was kept all the time between. A formula is told from all others by its serial
number. The numbers of what is kept are below the next one (`Engine.Current`), so once a text
is dropped no later formula of it can be the one that was read before (`Engine.Past`), and as
long as it is kept no other formula takes its place.

Key definitions: `Engine.Reads`, `Engine.Leaves`, `Engine.Current`, `Engine.Past`, `Fleet.Holds`, `Fleet.kept`,
`Fleet.ReadsNew`. Key theorems: `Engine.leaves_respond`, `Fleet.Holds.next`, `session_memory`.
-/
import RecordRules.Proofs.Interleavings

namespace RecordRules

/-! ### Errors -/

/-- The text was not read: it is too long or no expression. -/
def RuleError.Unread : RuleError → Prop
  | .sourceTooLong _ _ | .parse _ => True
  | _ => False

theorem Formula.unread_of_parseBounded {longest deepest : Nat} {source : String} {e : RuleError}
    (h : parseBounded longest deepest source = .error e) : e.Unread := by
  unfold parseBounded at h
  split_ifs at h
  · cases h
    trivial
  · split at h <;> cases h
    trivial

/-- The text that a call reads. -/
def Call.text? (call : Call) : Option String := call.need?.map Prod.fst

namespace Engine

/-- The engine once a text has been read that was not kept. -/
def grown (engine : Engine) (source : String) (formula : Formula) : Engine :=
  { engine.remember source ⟨formula, engine.nextSerial⟩ with nextSerial := engine.nextSerial + 1 }

/-- What reading a text can come to: it is not read, it is found, or it is read now. -/
inductive Reads (engine : Engine) (source : String) : Except RuleError Shared → Engine → Prop where
  | refused {e} : e.Unread → Reads engine source (.error e) engine
  | found {shared} : engine.kept? source = some shared → Reads engine source (.ok shared) engine
  | fresh {formula} : engine.kept? source = none →
      Formula.parseBounded engine.limits.maxSourceLength engine.limits.maxNestingDepth source = .ok formula →
      Reads engine source (.ok ⟨formula, engine.nextSerial⟩) (engine.grown source formula)

/-- What a call can leave of an engine: all as it was, nothing that is kept, or one more formula. -/
inductive Leaves (engine : Engine) : Call → Engine → Prop where
  | same {call} : Leaves engine call engine
  | cleared : Leaves engine .clearCache engine.clearCache
  | grown {call source formula} : call.text? = some source → engine.kept? source = none →
      Formula.parseBounded engine.limits.maxSourceLength engine.limits.maxNestingDepth source = .ok formula →
      Leaves engine call (engine.grown source formula)

variable {limits : Limits} {engine later : Engine} {source : String} {formula : Formula} {shared : Shared}
  {result : Except RuleError Shared} {call : Call}

theorem mem_of_kept? (h : engine.kept? source = some shared) : (source, shared) ∈ engine.cache.entries := by
  rw [kept?] at h
  split_ifs at h
  exact Keyed.mem_of_lookup h

theorem reads_of_parse (h : engine.parse source = (result, later)) : engine.Reads source result later := by
  unfold parse at h
  cases refused : refusal? engine.limits source with
  | some e =>
    rw [refused] at h
    cases h
    exact .refused (Formula.unread_of_parseBounded (parseBounded_of_refusal refused))
  | none =>
    cases found : engine.kept? source with
    | some shared =>
      simp only [refused, found] at h
      cases h
      exact .found found
    | none =>
      cases read : Formula.parseWithin (some engine.limits.maxNestingDepth) source with
      | error e =>
        simp only [refused, found, read] at h
        cases h
        exact .refused trivial
      | ok formula =>
        simp only [refused, found, read] at h
        cases h
        exact .fresh found (Formula.parseBounded_eq_ok_iff.mpr ⟨refusal?_eq_none_iff.mp refused, read⟩)

/-- Calls that read a text leave what reading it leaves. -/
theorem respond_of_text? (reads : call.text? = some source) :
    (engine.respond call).2 = (engine.parse source).2 := by
  obtain ⟨⟨_, purpose⟩, need, rfl⟩ := Option.map_eq_some_iff.mp reads
  exact congrArg Prod.snd (Errand.respond_eq ⟨call, _, purpose, need⟩ engine)

theorem Reads.leaves (h : engine.Reads source result later) (reads : call.text? = some source) :
    engine.Leaves call later := by
  cases h with
  | refused | found => exact .same
  | fresh missing read => exact .grown reads missing read

/-- **What a call leaves.** -/
theorem leaves_respond (engine : Engine) (call : Call) : engine.Leaves call (engine.respond call).2 := by
  cases reads : call.text? with
  | some source =>
    rw [respond_of_text? reads]
    exact (reads_of_parse rfl).leaves reads
  | none =>
    cases call with
    | parse | evaluate => cases reads
    | evaluateRule rule change guard =>
      have absent : rule.condition? = none := Option.map_eq_none_iff.mp (Option.map_eq_none_iff.mp reads)
      simp only [respond, evaluateRule, absent]
      exact .same
    | clearCache => exact .cleared
    | cachedCount => exact .same

/-! ### Serial numbers -/

/-- The engine is tidy, and its next formula differs from all that it keeps. -/
structure Current (limits : Limits) (engine : Engine) : Prop extends engine.Tidy limits where
  serials : ∀ entry ∈ engine.cache.entries, entry.2.serial < engine.nextSerial

theorem entries_grown (room : 0 < engine.limits.cacheCapacity) :
    (engine.grown source formula).cache.entries =
      Keyed.insert source ⟨formula, engine.nextSerial⟩
        (if engine.limits.cacheCapacity ≤ engine.cache.size then [] else engine.cache.entries) := by
  rw [grown, remember, if_pos room]
  rfl

theorem cache_grown_of_no_room (noRoom : ¬ 0 < engine.limits.cacheCapacity) :
    (engine.grown source formula).cache = engine.cache := by
  rw [grown, remember, if_neg noRoom]

theorem mem_grown {entry : String × Shared} (mem : entry ∈ (engine.grown source formula).cache.entries) :
    entry = (source, ⟨formula, engine.nextSerial⟩) ∨ entry ∈ engine.cache.entries := by
  by_cases room : 0 < engine.limits.cacheCapacity
  · have mem : entry ∈ (engine.cache.keep engine.limits.cacheCapacity source ⟨formula, engine.nextSerial⟩).entries := by
      rwa [entries_grown room] at mem
    exact mem_keep mem
  · rw [cache_grown_of_no_room room] at mem
    exact .inr mem

namespace Current

theorem grown (h : engine.Current limits)
    (read : Formula.parseBounded limits.maxSourceLength limits.maxNestingDepth source = .ok formula) :
    (engine.grown source formula).Current limits := by
  have tidy : (engine.remember source ⟨formula, engine.nextSerial⟩).Tidy limits := h.toTidy.remember read
  refine ⟨⟨⟨tidy.limits_eq, tidy.kept⟩, tidy.ascending, tidy.size_le⟩, fun entry mem => ?_⟩
  rcases mem_grown mem with rfl | old
  · exact Nat.lt_succ_self _
  · exact Nat.lt_succ_of_lt (h.serials entry old)

theorem leaves (h : engine.Current limits) (left : engine.Leaves call later) :
    later.Current limits := by
  cases left with
  | same => exact h
  | cleared => exact ⟨h.toTidy.clearCache, nofun⟩
  | grown _ _ read =>
    rw [h.limits_eq] at read
    exact h.grown read

/-- With room for any, what is not found is not kept. -/
theorem not_mem_of_kept? (h : engine.Current limits) (room : 0 < limits.cacheCapacity)
    (missing : engine.kept? source = none) : source ∉ engine.cache.entries.map Prod.fst := by
  rw [← h.limits_eq] at room
  rw [kept?, if_pos room] at missing
  intro mem
  obtain ⟨⟨_, shared⟩, among, rfl⟩ := List.mem_map.mp mem
  have found := Keyed.lookup_of_mem h.ascending among
  cases missing.symm.trans found

end Current

/-- What is kept later was kept before or is read now, and then under a text that was not kept. -/
theorem Leaves.mem {entry : String × Shared} (left : engine.Leaves call later)
    (current : engine.Current limits) (mem : entry ∈ later.cache.entries) : entry ∈ engine.cache.entries ∨
      entry.1 ∉ engine.cache.entries.map Prod.fst ∧ entry.2.serial = engine.nextSerial := by
  cases left with
  | same => exact .inl mem
  | cleared => cases mem
  | grown _ missing _ =>
    by_cases room : 0 < limits.cacheCapacity
    · rcases mem_grown mem with rfl | old
      · exact .inr ⟨current.not_mem_of_kept? room missing, rfl⟩
      · exact .inl old
    · rw [← current.limits_eq] at room
      rw [cache_grown_of_no_room room] at mem
      exact .inl mem

theorem Leaves.nextSerial_le (left : engine.Leaves call later) :
    engine.nextSerial ≤ later.nextSerial := by
  cases left with
  | same | cleared => exact le_rfl
  | grown => exact Nat.le_succ _

/-! ### A formula that was read -/

/-- The formula was read, and is not what is kept of the text. -/
structure Past (source : String) (shared : Shared) (engine : Engine) : Prop where
  earlier : shared.serial < engine.nextSerial
  differs : ∀ other, (source, other) ∈ engine.cache.entries → other.serial ≠ shared.serial

/-- A formula that is not kept never comes back. -/
theorem Past.leaves (h : engine.Past source shared) (current : engine.Current limits)
    (left : engine.Leaves call later) : later.Past source shared := by
  refine ⟨Nat.lt_of_lt_of_le h.earlier left.nextSerial_le, fun other mem => ?_⟩
  rcases left.mem current mem with old | ⟨_, new⟩
  · exact h.differs other old
  · have earlier := h.earlier
    have new : other.serial = engine.nextSerial := new
    omega

/-- What is read is kept under its text from then on, if there is room for any. -/
theorem Reads.mem (h : engine.Reads source (.ok shared) later) (current : engine.Current limits)
    (room : 0 < limits.cacheCapacity) : (source, shared) ∈ later.cache.entries := by
  rw [← current.limits_eq] at room
  cases h with
  | found found => exact mem_of_kept? found
  | fresh =>
    rw [entries_grown room]
    exact Keyed.mem_insert_self _ _ _

/-- All that was read has a number below the next one. -/
theorem Reads.earlier (h : engine.Reads source (.ok shared) later) (current : engine.Current limits) :
    shared.serial < later.nextSerial := by
  cases h with
  | found found => exact current.serials _ (mem_of_kept? found)
  | fresh => exact Nat.lt_succ_self _

end Engine

/-! ### Sessions -/

namespace Fleet

/-- All handles are on the one engine. -/
structure Holds (fleet : Fleet) (engine : Engine) : Prop where
  engines : fleet.engines = [engine]
  handles : ∀ number ∈ fleet.handles, number = 0

/-- The texts that are kept, with their formulas. -/
def kept (fleet : Fleet) : List (String × Shared) := fleet.engines.flatMap fun engine => engine.cache.entries

variable {limits : Limits} {fleet : Fleet} {engine : Engine} {handle : Nat} {call : Call} {reply : Reply}
  {source : String} {shared : Shared}

namespace Holds

theorem kept (h : fleet.Holds engine) : fleet.kept = engine.cache.entries := by
  rw [Fleet.kept, h.engines, List.flatMap_singleton]

theorem engine? (h : fleet.Holds engine) (live : handle < fleet.handles.length) :
    fleet.engine? handle = some (0, engine) := by
  have zero : fleet.handles[handle]? = some 0 := by
    rw [List.getElem?_eq_getElem live, h.handles _ (List.getElem_mem live)]
  simp [Fleet.engine?, zero, h.engines]

/-- A call through a handle that is there is one on the engine. -/
theorem next_call (h : fleet.Holds engine) (live : handle < fleet.handles.length) (call : Call) :
    fleet.next (.call handle call) = { fleet with engines := [(engine.respond call).2] } := by
  simp [Fleet.next, Fleet.run, h.engine? live, h.engines]

theorem next_of_not_live (dead : ¬ handle < fleet.handles.length) (call : Call) :
    fleet.next (.call handle call) = fleet := by
  simp [Fleet.next, Fleet.run, Fleet.engine?, dead]

/-- Only a handle that is there replies, and what it replies is the engine's. -/
theorem of_reply? (h : fleet.Holds engine) (replied : fleet.reply? handle call = some reply) :
    handle < fleet.handles.length ∧ (engine.respond call).1 = reply := by
  by_cases live : handle < fleet.handles.length
  · rw [reply?_eq (h.engine? live)] at replied
    exact ⟨live, Option.some.inj replied⟩
  · simp [reply?, Fleet.run, Fleet.engine?, live] at replied

/-- What a handle reads is what the engine reads. -/
theorem reads (h : fleet.Holds engine) {result : Except RuleError Shared}
    (replied : fleet.reply? handle (.parse source) = some (.parsed result)) :
    handle < fleet.handles.length ∧ engine.Reads source result (engine.parse source).2 := by
  obtain ⟨live, same⟩ := h.of_reply? replied
  refine ⟨live, ?_⟩
  cases parsed : engine.parse source with
  | mk read later =>
    rw [Engine.respond, parsed] at same
    exact Reply.parsed.inj same ▸ Engine.reads_of_parse parsed

/-- **What an event leaves.** All handles are on one engine still, which is as it was or as a call leaves it. -/
theorem next (h : fleet.Holds engine) (event : Event) : ∃ later, (fleet.next event).Holds later ∧
    (later = engine ∨ ∃ handle call, event = .call handle call ∧ handle < fleet.handles.length ∧
      later = (engine.respond call).2) := by
  cases event with
  | call handle call =>
    by_cases live : handle < fleet.handles.length
    · rw [h.next_call live]
      exact ⟨_, ⟨rfl, h.handles⟩, .inr ⟨handle, call, rfl, live, rfl⟩⟩
    · rw [next_of_not_live live]
      exact ⟨engine, h, .inl rfl⟩
  | clone handle =>
    refine ⟨engine, ?_, .inl rfl⟩
    cases shared : fleet.handles[handle]? with
    | none =>
      have same : fleet.next (.clone handle) = fleet := by simp [Fleet.next, Fleet.clone, shared]
      rwa [same]
    | some number =>
      have zero : number = 0 := h.handles number (List.mem_of_getElem? shared)
      have more : fleet.next (.clone handle) = { fleet with handles := fleet.handles ++ [number] } := by
        simp [Fleet.next, Fleet.clone, shared]
      rw [more]
      refine ⟨h.engines, fun other mem => ?_⟩
      rcases List.mem_append.mp mem with mem | mem
      · exact h.handles other mem
      · rw [List.mem_singleton.mp mem, zero]

/-- What all calls keep is kept over a history. -/
theorem after {P : Engine → Prop} (h : fleet.Holds engine) (current : engine.Current limits) (here : P engine)
    (step : ∀ {engine later call}, engine.Current limits → P engine → engine.Leaves call later → P later)
    (history : List Event) : ∃ later, (fleet.after history).Holds later ∧ later.Current limits ∧ P later := by
  induction history generalizing fleet engine with
  | nil => exact ⟨engine, h, current, here⟩
  | cons event rest ih =>
    obtain ⟨next, holds, rfl | ⟨_, call, _, _, rfl⟩⟩ := h.next event
    · exact ih holds current here
    · have left := engine.leaves_respond call
      exact ih holds (current.leaves left) (step current here left)

end Holds
end Fleet

end RecordRules
