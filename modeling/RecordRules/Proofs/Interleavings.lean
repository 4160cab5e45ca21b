/-
# Overlapping calls do no harm

Two callers may both miss a text and both keep it, keep different texts in a memory that
has room for one, or keep a formula that was parsed before the memory was emptied. None
of this matters. A caller that is about to keep a formula has parsed it from its own text
(`Stage.Sound`), so whenever it gets to it, the memory keeps nothing but formulas of their
own texts, under each text one and never more than there is room for (`Engine.Tidy`). A
step of a caller keeps both, whatever the engine has come to keep since its last step
(`Caller.Sound.advance`), and so does any schedule of steps (`Crowd.sound_after`).

No caller waits for another either: each of its steps brings it closer to the end of its
script (`Caller.progress_advance`), and a caller that gets enough steps has all its calls
answered, in order (`Crowd.answered_of_turns`).

Key definitions: `Engine.Tidy`, `Call.AnsweredBy`, `Stage.Sound`, `Caller.work`. Key
theorems: `Caller.respond_of_alone`, `Caller.Sound.advance`, `Crowd.sound_after`,
`Crowd.answered_of_turns`, `overlapping_calls`.
-/
import RecordRules.Engine.Interleaving
import RecordRules.Proofs.Sessions

namespace RecordRules

/-! ### Room -/

namespace Keyed

theorem length_insert_le {α : Type} (name : String) (value : α) (entries : List (String × α)) :
    (insert name value entries).length ≤ entries.length + 1 := by
  induction entries with
  | nil => exact le_rfl
  | cons entry rest ih =>
    unfold insert
    split_ifs
    · exact le_rfl
    · exact Nat.succ_le_succ ih
    · exact Nat.le_succ _

end Keyed

namespace Cache

variable {cache : Cache} {capacity : Nat}

/-- A memory with room is never over its capacity: if it is full it is emptied first. -/
theorem size_keep_le (room : 0 < capacity) (source : String) (shared : Shared) :
    (cache.keep capacity source shared).size ≤ capacity := by
  have grown := Keyed.length_insert_le source shared (if capacity ≤ cache.size then [] else cache.entries)
  refine Nat.le_trans grown ?_
  split_ifs with full
  · exact room
  · exact Nat.not_le.mp full

theorem ascending_keep (h : Keyed.Ascending cache.entries) (source : String) (shared : Shared) :
    Keyed.Ascending (cache.keep capacity source shared).entries := by
  refine Keyed.ascending_insert ?_
  split_ifs
  · exact .nil
  · exact h

end Cache

namespace Engine

/-- The engine keeps formulas of their own texts, one under each text, and no more than there is room for. -/
structure Tidy (limits : Limits) (engine : Engine) : Prop extends Engine.Sound limits engine where
  ascending : Keyed.Ascending engine.cache.entries
  size_le : engine.cache.size ≤ limits.cacheCapacity

variable {limits : Limits} {engine : Engine}

theorem tidy_create (h : create limits = .ok engine) : engine.Tidy limits := by
  refine ⟨sound_create h, ?_, ?_⟩
  all_goals
    unfold create at h
    split at h <;> cases h
  · exact .nil
  · exact Nat.zero_le _

theorem Tidy.remember (h : engine.Tidy limits) {source : String} {shared : Shared}
    (read : Formula.parseBounded limits.maxSourceLength limits.maxNestingDepth source = .ok shared.formula) :
    (engine.remember source shared).Tidy limits := by
  refine ⟨h.toSound.remember read, ?_, ?_⟩
  all_goals
    unfold Engine.remember
    split_ifs with room
  · exact Cache.ascending_keep h.ascending source shared
  · exact h.ascending
  · rw [h.limits_eq] at room ⊢
    exact Cache.size_keep_le room source shared
  · exact h.size_le

theorem Tidy.clearCache (h : engine.Tidy limits) : engine.clearCache.Tidy limits :=
  ⟨h.toSound.clearCache, .nil, Nat.zero_le _⟩

end Engine

/-! ### Replies -/

/-- The reply is right for the call, whatever the engine was asked before and is asked meanwhile. -/
def Call.AnsweredBy (limits : Limits) : Call → Reply → Prop
  | .parse source, reply => ∃ result, reply = .parsed result ∧
      result.map Shared.formula = Formula.parseBounded limits.maxSourceLength limits.maxNestingDepth source
  | .evaluate source change guard, reply =>
      reply = .verdict (evaluateBounded limits.maxSourceLength limits.maxNestingDepth source change guard)
  | .evaluateRule rule change guard, reply =>
      reply = .verdict (evaluateRuleBounded limits.maxSourceLength limits.maxNestingDepth rule change guard)
  | .clearCache, reply => reply = .cleared
  | .cachedCount, reply => ∃ kept, reply = .count kept ∧ kept ≤ limits.cacheCapacity

section
variable {limits : Limits} {engine : Engine} {call : Call}

/-- What has been read of the text makes the verdict. -/
theorem Purpose.reply_judge {result : Except RuleError Shared} {source : String}
    (read : result.map Shared.formula =
      Formula.parseBounded limits.maxSourceLength limits.maxNestingDepth source) (change : Change)
    (guard : Option Guard) :
    (Purpose.judge change guard).reply result =
      .verdict (evaluateBounded limits.maxSourceLength limits.maxNestingDepth source change guard) := by
  unfold evaluateBounded
  rw [← read]
  cases result <;> rfl

/-- A call that needs a text is answered by what is read of it. -/
theorem Errand.answered (errand : Errand) {result : Except RuleError Shared}
    (read : result.map Shared.formula =
      Formula.parseBounded limits.maxSourceLength limits.maxNestingDepth errand.source) :
    errand.call.AnsweredBy limits (errand.purpose.reply result) := by
  obtain ⟨call, source, purpose, need⟩ := errand
  cases call with
  | parse =>
    cases need
    exact ⟨result, rfl, read⟩
  | evaluate _ change guard =>
    cases need
    exact Purpose.reply_judge read change guard
  | evaluateRule rule change guard =>
    obtain ⟨condition, given, heq⟩ := Option.map_eq_some_iff.mp need
    cases heq
    have verdict := Purpose.reply_judge read change guard
    simp only [Call.AnsweredBy, evaluateRuleBounded, given]
    exact verdict
  | clearCache | cachedCount => cases need

/-- A call that needs no text is answered at once, and the engine stays tidy. -/
theorem answered_respond (h : engine.Tidy limits) (noNeed : call.need? = none) :
    call.AnsweredBy limits (engine.respond call).1 ∧ (engine.respond call).2.Tidy limits := by
  cases call with
  | parse | evaluate => cases noNeed
  | evaluateRule rule change guard =>
    have absent : rule.condition? = none := Option.map_eq_none_iff.mp noNeed
    simp only [Call.AnsweredBy, evaluateRuleBounded, Engine.respond, Engine.evaluateRule, absent]
    exact ⟨trivial, h⟩
  | clearCache => exact ⟨rfl, h.clearCache⟩
  | cachedCount => exact ⟨⟨_, rfl, h.size_le⟩, h⟩

end

/-! ### Steps -/

/-- What a caller has found out about its text still holds when it takes its next step. -/
def Stage.Sound (limits : Limits) : Stage → Prop
  | .idle => True
  | .looking errand => errand.source.utf8ByteSize ≤ limits.maxSourceLength
  | .reading errand => errand.source.utf8ByteSize ≤ limits.maxSourceLength
  | .keeping errand shared =>
    Formula.parseBounded limits.maxSourceLength limits.maxNestingDepth errand.source = .ok shared.formula

namespace Caller

/-- What the caller has found out stands, and its replies so far are right. -/
structure Sound (limits : Limits) (caller : Caller) : Prop where
  stage : caller.stage.Sound limits
  log : ∀ entry ∈ caller.log, entry.1.AnsweredBy limits entry.2

variable {limits : Limits} {engine : Engine} {caller : Caller} {call : Call}

theorem sound_joined (handle : Nat) (script : List Call) : (Caller.mk handle script .idle []).Sound limits :=
  ⟨trivial, fun _ mem => absurd mem List.not_mem_nil⟩

theorem Sound.settle {reply : Reply} (h : caller.Sound limits) (answered : call.AnsweredBy limits reply) :
    (caller.settle call reply).Sound limits := by
  refine ⟨trivial, fun entry mem => ?_⟩
  rcases List.mem_append.mp mem with mem | mem
  · exact h.log entry mem
  · cases List.mem_singleton.mp mem
    exact answered

theorem Sound.finish (h : caller.Sound limits) (errand : Errand) {result : Except RuleError Shared}
    (read : result.map Shared.formula =
      Formula.parseBounded limits.maxSourceLength limits.maxNestingDepth errand.source) :
    (caller.finish errand result).Sound limits :=
  h.settle (errand.answered read)

theorem Sound.start (h : caller.Sound limits) (tidy : engine.Tidy limits) (call : Call) :
    (caller.start call engine).1.Sound limits ∧ (caller.start call engine).2.Tidy limits := by
  unfold Caller.start
  split
  · rename_i noNeed
    obtain ⟨answered, stays⟩ := answered_respond tidy noNeed
    exact ⟨h.settle answered, stays⟩
  · rename_i source purpose need
    rw [tidy.limits_eq]
    dsimp only
    cases refused : Engine.refusal? limits source with
    | some e => exact ⟨h.finish _ (Engine.parseBounded_of_refusal refused).symm, tidy⟩
    | none =>
      have short := Engine.refusal?_eq_none_iff.mp refused
      exact ⟨⟨short, h.log⟩, tidy⟩

/-- **A step does no harm.** Whatever the engine has come to keep since the caller's last step, what the caller
does is sound, and it leaves the engine tidy. -/
theorem Sound.advance (h : caller.Sound limits) (tidy : engine.Tidy limits) :
    (caller.advance engine).1.Sound limits ∧ (caller.advance engine).2.Tidy limits := by
  have known := h.stage
  unfold Caller.advance
  split
  · split
    · exact ⟨h, tidy⟩
    · rename_i call script _
      have made : ({ caller with script } : Caller).Sound limits := ⟨h.stage, h.log⟩
      exact made.start tidy call
  · rename_i errand here
    rw [here] at known
    cases found : engine.kept? errand.source with
    | some shared => exact ⟨h.finish errand (tidy.parseBounded_of_kept? found).symm, tidy⟩
    | none => exact ⟨⟨known, h.log⟩, tidy⟩
  · rename_i errand here
    rw [here] at known
    rw [tidy.limits_eq]
    cases parsed : Formula.parseWithin (some limits.maxNestingDepth) errand.source with
    | error e =>
      have read : Formula.parseBounded limits.maxSourceLength limits.maxNestingDepth errand.source = _ :=
        Formula.parseBounded_of_short known
      rw [parsed] at read
      exact ⟨h.finish errand read.symm, tidy⟩
    | ok formula =>
      have read := Formula.parseBounded_eq_ok_iff.mpr ⟨known, parsed⟩
      exact ⟨⟨read, h.log⟩, ⟨rfl, tidy.kept⟩, tidy.ascending, tidy.size_le⟩
  · rename_i errand shared here
    -- others may have filled or emptied the memory since, but the text still says what it said
    rw [here] at known
    exact ⟨h.finish errand (Eq.symm known), tidy.remember known⟩

end Caller

/-! ### Progress -/

/-- The call that is under way. -/
def Stage.pending : Stage → List Call
  | .idle => []
  | .looking errand => [errand.call]
  | .reading errand => [errand.call]
  | .keeping errand _ => [errand.call]

/-- The most steps that the call under way still takes. -/
def Stage.steps : Stage → Nat
  | .idle => 0
  | .looking _ => 3
  | .reading _ => 2
  | .keeping _ _ => 1

namespace Caller

/-- All calls of a caller: those that are answered, the one under way and those to come. -/
def calls (caller : Caller) : List Call := caller.log.map Prod.fst ++ (caller.stage.pending ++ caller.script)

/-- The most steps until all calls are answered. -/
def work (caller : Caller) : Nat := caller.stage.steps + 4 * caller.script.length

/-- The same caller, on its handle and with its calls, and closer to the end if it was not there. -/
structure Progress (caller later : Caller) : Prop where
  handle : later.handle = caller.handle
  calls : later.calls = caller.calls
  work : later.work ≤ caller.work - 1

variable {caller : Caller} {call : Call} {errand : Errand} {script : List Call}

theorem calls_settle (reply : Reply) :
    (caller.settle call reply).calls = caller.log.map Prod.fst ++ call :: caller.script := by
  simp [calls, settle, Stage.pending]

theorem work_settle (reply : Reply) : (caller.settle call reply).work = 4 * caller.script.length :=
  Nat.zero_add _

/-- A caller that is at its call, and not yet at its end, may answer it. -/
theorem progress_finish (pending : caller.stage.pending = [errand.call]) (busy : 0 < caller.stage.steps)
    (result : Except RuleError Shared) : caller.Progress (caller.finish errand result) := by
  refine ⟨rfl, ?_, ?_⟩
  · unfold finish
    rw [calls_settle, calls, pending, List.singleton_append]
  · unfold finish
    rw [work_settle, work]
    omega

/-- A caller may come closer to the end of its call. -/
theorem progress_move {stage : Stage} (same : stage.pending = caller.stage.pending)
    (closer : stage.steps < caller.stage.steps) : caller.Progress { caller with stage } := by
  refine ⟨rfl, ?_, ?_⟩
  · rw [calls, calls, same]
  · simp only [work]
    omega

/-- A caller may make the next of its calls. -/
theorem progress_start (idle : caller.stage = .idle) (left : caller.script = call :: script) (engine : Engine) :
    caller.Progress (start { caller with script } call engine).1 := by
  have calls : caller.calls = caller.log.map Prod.fst ++ call :: script := by
    rw [Caller.calls, idle, left, Stage.pending, List.nil_append]
  have work : caller.work = 4 * (script.length + 1) := by
    rw [Caller.work, idle, left, Stage.steps, Nat.zero_add, List.length_cons]
  have settled (reply : Reply) : caller.Progress (settle { caller with script } call reply) := by
    refine ⟨rfl, ?_, ?_⟩
    · rw [calls_settle, calls]
    · have fewer : 4 * script.length ≤ 4 * (script.length + 1) - 1 := by omega
      rw [work_settle, work]
      exact fewer
  unfold start
  split
  · exact settled _
  · rename_i source _ _
    dsimp only
    cases Engine.refusal? engine.limits source with
    | some e => exact settled _
    | none =>
      have fewer : 3 + 4 * script.length ≤ 4 * (script.length + 1) - 1 := by omega
      refine ⟨rfl, calls.symm, ?_⟩
      rw [work]
      exact fewer

/-- **A step is progress.** A caller loses no call, and as long as something is left to do its step does some of
it, whatever state the engine is in. -/
theorem progress_advance (caller : Caller) (engine : Engine) : caller.Progress (caller.advance engine).1 := by
  unfold advance
  split
  · rename_i idle
    split
    · rename_i nothing
      refine ⟨rfl, rfl, ?_⟩
      rw [work, idle, nothing]
      exact Nat.zero_le _
    · rename_i left
      exact progress_start idle left engine
  · rename_i errand here
    cases engine.kept? errand.source with
    | some shared => exact progress_finish (by rw [here, Stage.pending]) (by simp [here, Stage.steps]) _
    | none => exact progress_move (by rw [here]; rfl) (by simp [here, Stage.steps])
  · rename_i errand here
    cases Formula.parseWithin (some engine.limits.maxNestingDepth) errand.source with
    | error e => exact progress_finish (by rw [here, Stage.pending]) (by simp [here, Stage.steps]) _
    | ok formula => exact progress_move (by rw [here]; rfl) (by simp [here, Stage.steps])
  · rename_i errand shared here
    exact progress_finish (by rw [here, Stage.pending]) (by simp [here, Stage.steps]) _

end Caller

/-! ### Calls that do not overlap -/

/-- A call that needs a text reads it, and makes its reply of what it has read. -/
theorem Errand.respond_eq (errand : Errand) (engine : Engine) : engine.respond errand.call =
    (errand.purpose.reply (engine.parse errand.source).1, (engine.parse errand.source).2) := by
  obtain ⟨call, source, purpose, need⟩ := errand
  have judged (change : Change) (guard : Option Guard) : engine.evaluate source change guard =
      (match (engine.parse source).1 with
        | .ok shared => shared.formula.evaluate change guard
        | .error e => ⟨.error e, []⟩, (engine.parse source).2) := by
    unfold Engine.evaluate
    cases engine.parse source with
    | mk result after => cases result <;> rfl
  cases call with
  | parse => cases need; rfl
  | evaluate _ change guard =>
    cases need
    simp only [Engine.respond, judged]
    cases (engine.parse source).1 <;> rfl
  | evaluateRule rule change guard =>
    obtain ⟨condition, given, heq⟩ := Option.map_eq_some_iff.mp need
    cases heq
    simp only [Engine.respond, Engine.evaluateRule, given, judged]
    cases (engine.parse source).1 <;> rfl
  | clearCache | cachedCount => cases need

namespace Caller

/-- Some steps of a caller and no one else, and the engine afterwards. -/
def advances (steps : Nat) (caller : Caller) (engine : Engine) : Caller × Engine :=
  (fun pair : Caller × Engine => pair.1.advance pair.2)^[steps] (caller, engine)

variable {caller : Caller} {call : Call} {errand : Errand} {script : List Call} {engine : Engine}

theorem advances_succ (steps : Nat) (caller : Caller) (engine : Engine) : advances (steps + 1) caller engine =
    advances steps (caller.advance engine).1 (caller.advance engine).2 := rfl

theorem start_of_need (caller : Caller) (errand : Errand) (engine : Engine) :
    caller.start errand.call engine =
      match Engine.refusal? engine.limits errand.source with
      | some e => (caller.finish errand (.error e), engine)
      | none => ({ caller with stage := .looking errand }, engine) := by
  obtain ⟨call, source, purpose, need⟩ := errand
  unfold start
  split
  · rename_i noNeed
    cases noNeed.symm.trans need
  · rename_i need'
    cases need'.symm.trans need
    rfl

/-- The rest of a call from the look-up on. -/
theorem advances_of_looking (caller : Caller) (errand : Errand)
    (short : Engine.refusal? engine.limits errand.source = none) :
    ∃ steps ≤ 3, advances steps { caller with stage := .looking errand } engine =
      (caller.finish errand (engine.parse errand.source).1, (engine.parse errand.source).2) := by
  unfold Engine.parse
  rw [short]
  cases found : engine.kept? errand.source with
  | some shared =>
    refine ⟨1, by decide, ?_⟩
    simp only [advances_succ, advance, found]
    rfl
  | none =>
    cases parsed : Formula.parseWithin (some engine.limits.maxNestingDepth) errand.source with
    | error e =>
      refine ⟨2, by decide, ?_⟩
      simp only [advances_succ, advance, found, parsed]
      rfl
    | ok formula =>
      refine ⟨3, by decide, ?_⟩
      simp only [advances_succ, advance, found, parsed]
      unfold Engine.remember
      split_ifs <;> rfl

/-- **Undisturbed calls.** A caller that nobody comes in between has its call answered as in a session, in four
steps at most, and leaves the engine that the session leaves. -/
theorem respond_of_alone (idle : caller.stage = .idle) (left : caller.script = call :: script)
    (engine : Engine) :
    ∃ steps ≤ 4, advances steps caller engine =
      (settle { caller with script } call (engine.respond call).1, (engine.respond call).2) := by
  have made : caller.advance engine = start { caller with script } call engine := by
    simp only [advance, idle, left]
  cases need : call.need? with
  | none =>
    refine ⟨1, by decide, ?_⟩
    rw [advances_succ, made]
    unfold start
    split
    · rfl
    · rename_i need'
      cases need.symm.trans need'
  | some textPurpose =>
    obtain ⟨errand, rfl⟩ : ∃ errand : Errand, errand.call = call := ⟨⟨call, _, _, need⟩, rfl⟩
    have started := start_of_need { caller with script } errand engine
    rw [errand.respond_eq engine]
    cases refused : Engine.refusal? engine.limits errand.source with
    | some e =>
      simp only [refused] at started
      refine ⟨1, by decide, ?_⟩
      rw [advances_succ, made, started]
      simp only [Engine.parse, refused]
      rfl
    | none =>
      simp only [refused] at started
      obtain ⟨steps, few, rest⟩ := advances_of_looking { caller with script } errand refused
      refine ⟨steps + 1, Nat.succ_le_succ few, ?_⟩
      rw [advances_succ, made, started]
      exact rest

end Caller

/-! ### Crowds -/

namespace Crowd

/-- All callers share one engine, which is tidy, and all of them are sound. -/
structure Sound (limits : Limits) (crowd : Crowd) : Prop where
  shared : ∃ engine, crowd.fleet.engines = [engine] ∧ engine.Tidy limits
  handles : ∀ number ∈ crowd.fleet.handles, number = 0
  live : ∀ caller ∈ crowd.callers, caller.handle < crowd.fleet.handles.length
  callers : ∀ caller ∈ crowd.callers, caller.Sound limits

variable {limits : Limits} {crowd : Crowd} {caller : Caller} {number : Nat}

theorem sound_create (h : create limits = .ok crowd) : crowd.Sound limits := by
  unfold create Fleet.create at h
  cases made : Engine.create limits with
  | error e =>
    rw [made] at h
    cases h
  | ok engine =>
    rw [made] at h
    cases h
    refine ⟨⟨engine, rfl, Engine.tidy_create made⟩, by simp, ?_, ?_⟩
    all_goals exact fun caller mem => absurd mem List.not_mem_nil

theorem create_of_valid (valid : limits.validate = .ok ()) : ∃ crowd, create limits = .ok crowd := by
  simp [create, Fleet.create, Engine.create, valid]

/-- A caller's step is one on the shared engine. -/
theorem Sound.next_advance (h : crowd.Sound limits) (here : crowd.callers[number]? = some caller) :
    ∃ engine, crowd.fleet.engines = [engine] ∧ engine.Tidy limits ∧ crowd.next (.advance number) =
      ⟨{ crowd.fleet with engines := [(caller.advance engine).2] },
        crowd.callers.set number (caller.advance engine).1⟩ := by
  obtain ⟨engine, one, tidy⟩ := h.shared
  have live := h.live caller (List.mem_of_getElem? here)
  have zero : crowd.fleet.handles[caller.handle]? = some 0 := by
    rw [List.getElem?_eq_getElem live, h.handles _ (List.getElem_mem live)]
  refine ⟨engine, one, tidy, ?_⟩
  simp [next, here, Fleet.run, Fleet.engine?, zero, one]

theorem Sound.advance (h : crowd.Sound limits) (number : Nat) :
    (crowd.next (.advance number)).Sound limits := by
  cases here : crowd.callers[number]? with
  | none =>
    simp only [next, here]
    exact h
  | some caller =>
    obtain ⟨engine, _, tidy, made⟩ := h.next_advance here
    have mem := List.mem_of_getElem? here
    obtain ⟨sound, stays⟩ := (h.callers caller mem).advance tidy
    have handle := (caller.progress_advance engine).handle
    rw [made]
    refine ⟨⟨_, rfl, stays⟩, h.handles, fun other among => ?_, fun other among => ?_⟩
    · rcases List.mem_or_eq_of_mem_set among with among | rfl
      · exact h.live other among
      · rw [handle]
        exact h.live caller mem
    · rcases List.mem_or_eq_of_mem_set among with among | rfl
      · exact h.callers other among
      · exact sound

theorem Sound.join (h : crowd.Sound limits) (handle : Nat) (script : List Call) :
    (crowd.next (.join handle script)).Sound limits := by
  cases cloned : crowd.fleet.clone handle with
  | none =>
    simp only [next, cloned]
    exact h
  | some result =>
    simp only [next, cloned]
    obtain ⟨fresh, fleet⟩ := result
    unfold Fleet.clone at cloned
    simp only [Option.bind_eq_bind, Option.bind_eq_some_iff, Option.pure_def, Option.some.injEq,
      Prod.mk.injEq] at cloned
    obtain ⟨engine, found, rfl, rfl⟩ := cloned
    have longer (caller : Caller) (mem : caller ∈ crowd.callers) :
        caller.handle < (crowd.fleet.handles ++ [engine]).length := by
      rw [List.length_append]
      exact Nat.lt_add_right _ (h.live caller mem)
    refine ⟨h.shared, fun other among => ?_, fun caller among => ?_, fun caller among => ?_⟩
    · rcases List.mem_append.mp among with among | among
      · exact h.handles other among
      · cases List.mem_singleton.mp among
        exact h.handles engine (List.mem_of_getElem? found)
    · rcases List.mem_append.mp among with among | among
      · exact longer caller among
      · cases List.mem_singleton.mp among
        simp
    · rcases List.mem_append.mp among with among | among
      · exact h.callers caller among
      · cases List.mem_singleton.mp among
        exact Caller.sound_joined _ script

theorem Sound.next (h : crowd.Sound limits) (event : Event) : (crowd.next event).Sound limits := by
  cases event with
  | join handle script => exact h.join handle script
  | advance number => exact h.advance number

/-- **Any schedule keeps a crowd sound.** -/
theorem sound_after (h : crowd.Sound limits) (schedule : List Event) : (crowd.after schedule).Sound limits := by
  induction schedule generalizing crowd with
  | nil => exact h
  | cons event rest ih => exact ih (h.next event)

/-! ### Turns -/

/-- The event is a step of that caller. -/
def Event.isTurn (number : Nat) : Event → Bool
  | .join _ _ => false
  | .advance other => other == number

/-- An event takes no calls from a caller, and brings it closer to the end if it is its turn. -/
theorem Sound.turn (h : crowd.Sound limits) (here : crowd.callers[number]? = some caller) (event : Event) :
    ∃ later, (crowd.next event).callers[number]? = some later ∧ later.calls = caller.calls ∧
      later.work ≤ caller.work - if event.isTurn number then 1 else 0 := by
  have inside : number < crowd.callers.length := (List.getElem?_eq_some_iff.mp here).1
  cases event with
  | join handle script =>
    refine ⟨caller, ?_, rfl, le_rfl⟩
    cases cloned : crowd.fleet.clone handle with
    | none =>
      simp only [Crowd.next, cloned]
      exact here
    | some result =>
      simp only [Crowd.next, cloned]
      exact (List.getElem?_append_left inside).trans here
  | advance other =>
    by_cases turn : other = number
    · subst turn
      obtain ⟨engine, _, _, made⟩ := h.next_advance here
      have progress := caller.progress_advance engine
      refine ⟨(caller.advance engine).1, ?_, progress.calls, ?_⟩
      · rw [made]
        exact List.getElem?_set_self inside
      · rw [Event.isTurn, beq_self_eq_true, if_pos rfl]
        exact progress.work
    · refine ⟨caller, ?_, rfl, ?_⟩
      · cases there : crowd.callers[other]? with
        | none =>
          simp only [Crowd.next, there]
          exact here
        | some mover =>
          obtain ⟨engine, _, _, made⟩ := h.next_advance there
          rw [made, List.getElem?_set_ne turn]
          exact here
      · simp [Event.isTurn, turn]

theorem Sound.turns (h : crowd.Sound limits) (here : crowd.callers[number]? = some caller)
    (schedule : List Event) : ∃ later, (crowd.after schedule).callers[number]? = some later ∧
      later.calls = caller.calls ∧ later.work ≤ caller.work - schedule.countP (Event.isTurn number) := by
  induction schedule generalizing crowd caller with
  | nil => exact ⟨caller, here, rfl, le_rfl⟩
  | cons event rest ih =>
    obtain ⟨next, there, calls, less⟩ := h.turn here event
    obtain ⟨later, found, same, fewer⟩ := ih (h.next event) there
    refine ⟨later, found, same.trans calls, ?_⟩
    rw [List.countP_cons]
    omega

/-- **No caller waits for another.** A caller that gets as many steps as it has work left, whatever happens
between them, has all its calls answered, in their order and rightly. -/
theorem answered_of_turns (h : crowd.Sound limits) (here : crowd.callers[number]? = some caller)
    (schedule : List Event) (enough : caller.work ≤ schedule.countP (Event.isTurn number)) :
    ∃ later, (crowd.after schedule).callers[number]? = some later ∧ later.log.map Prod.fst = caller.calls ∧
      ∀ entry ∈ later.log, entry.1.AnsweredBy limits entry.2 := by
  obtain ⟨later, found, calls, less⟩ := h.turns here schedule
  have sound := (sound_after h schedule).callers later (List.mem_of_getElem? found)
  have done : later.stage.steps + 4 * later.script.length = 0 := by
    rw [← Caller.work]
    omega
  have nothing : later.script = [] := List.length_eq_zero_iff.mp (by omega)
  have idle : later.stage.pending = [] := by
    have ended : later.stage.steps = 0 := by omega
    cases stage : later.stage with
    | idle => rfl
    | looking | reading | keeping =>
      rw [stage] at ended
      cases ended
  refine ⟨later, found, ?_, sound.log⟩
  rw [← calls, Caller.calls, idle, nothing, List.append_nil, List.append_nil]

end Crowd

/-- **Overlapping calls do no harm.** Limits that can be used make an engine. Whoever joins on its clones, and
in whatever order the steps of their calls come: what the engine keeps are the formulas of their own texts,
which are within the limits, one under each text and never more than there is room for, so none if there is
room for none; and every call that has its reply has the right one. -/
theorem overlapping_calls {limits : Limits} (valid : limits.validate = .ok ()) :
    ∃ crowd, Crowd.create limits = .ok crowd ∧ ∀ schedule : List Crowd.Event,
      ∃ engine, (crowd.after schedule).fleet.engines = [engine] ∧
        (∀ entry ∈ engine.cache.entries, entry.1.utf8ByteSize ≤ limits.maxSourceLength ∧
          Formula.parseWithin (some limits.maxNestingDepth) entry.1 = .ok entry.2.formula) ∧
        (engine.cache.entries.map Prod.fst).Nodup ∧
        engine.cachedCount ≤ limits.cacheCapacity ∧ (limits.cacheCapacity = 0 → engine.cachedCount = 0) ∧
        ∀ caller ∈ (crowd.after schedule).callers, ∀ entry ∈ caller.log, entry.1.AnsweredBy limits entry.2 := by
  obtain ⟨crowd, created⟩ := Crowd.create_of_valid valid
  refine ⟨crowd, created, fun schedule => ?_⟩
  have sound := Crowd.sound_after (Crowd.sound_create created) schedule
  obtain ⟨engine, one, tidy⟩ := sound.shared
  refine ⟨engine, one, ?_, tidy.ascending.nodup, tidy.size_le, ?_, ?_⟩
  · exact fun entry mem => Formula.parseBounded_eq_ok_iff.mp (tidy.kept entry mem)
  · intro noRoom
    have bound := tidy.size_le
    rw [noRoom] at bound
    exact Nat.le_zero.mp bound
  · exact fun caller mem => (sound.callers caller mem).log

/-- A formula is parsed before another caller fills the memory and empties it, and kept afterwards. -/
theorem overlapping_calls_kept_late :
    let limits : Limits := ⟨3, 1, 1⟩
    let schedule : List Crowd.Event := [.join 0 [.parse "(a)"], .join 1 [.parse "b", .clearCache],
      .advance 0, .advance 0, .advance 0, .advance 1, .advance 1, .advance 1, .advance 1, .advance 1,
      .advance 0]
    limits.validate = .ok () ∧ ∃ crowd, Crowd.create limits = .ok crowd ∧
      (crowd.after schedule).callers.map (fun caller => caller.log.map Prod.fst) =
        [[.parse "(a)"], [.parse "b", .clearCache]] ∧
      (∀ caller ∈ (crowd.after schedule).callers, ∀ entry ∈ caller.log, entry.1.AnsweredBy limits entry.2) ∧
      ∃ engine, (crowd.after schedule).fleet.engines = [engine] ∧ engine.cache.entries.map Prod.fst = ["(a)"] ∧
        ∀ entry ∈ engine.cache.entries, Formula.parseWithin (some 1) entry.1 = .ok entry.2.formula := by
  intro limits schedule
  have valid : limits.validate = .ok () := rfl
  obtain ⟨crowd, created, safe⟩ := overlapping_calls valid
  obtain ⟨engine, one, kept, _, _, _, answered⟩ := safe schedule
  have texts : (crowd.after schedule).fleet.engines.map (fun engine => engine.cache.entries.map Prod.fst) =
      [["(a)"]] := by
    cases created
    cbv
  have calls : (crowd.after schedule).callers.map (fun caller => caller.log.map Prod.fst) =
      [[.parse "(a)"], [.parse "b", .clearCache]] := by
    cases created
    cbv
  rw [one] at texts
  refine ⟨valid, crowd, created, calls, answered, engine, one, ?_, fun entry mem => (kept entry mem).2⟩
  exact List.head_eq_of_cons_eq texts

end RecordRules
