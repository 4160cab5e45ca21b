/-
# What an engine has been asked before does not matter

An engine keeps formulas by their texts, drops them when it is full or told to, and shares
them among its clones. None of this shows in an answer. Whatever is kept was read from its
own text within the limits (`Engine.Sound`): a new engine keeps nothing, each call keeps this
(`Engine.sound_respond`), and so does each event of a session, be it through a handle that
was there from the start or one that was cloned on the way (`Fleet.sound_after`). A sound
engine answers what `Formula.parseBounded` and `evaluateBounded` say, which know of two
limits only: how long a text may be and how many brackets may be open at once.

Key definitions: `Formula.parseBounded`, `evaluateBounded`, `Engine.Sound`. Key theorems:
`Engine.sound_respond`, `Fleet.sound_after`, `session_replies`.
-/
import RecordRules.Engine.Session
import RecordRules.Proofs.Entries
import RecordRules.Proofs.Nesting

namespace RecordRules

/-! ### Answers without memory -/

/-- The formula of a text that is not too long and does not nest too deep, or why there is none. -/
def Formula.parseBounded (longest deepest : Nat) (source : String) : Except RuleError Formula :=
  if longest < source.utf8ByteSize then .error (.sourceTooLong source.utf8ByteSize longest)
  else
    match Formula.parseWithin (some deepest) source with
    | .ok formula => .ok formula
    | .error e => .error (.parse e)

/-- Whether the expression of such a text holds for a change. -/
def evaluateBounded (longest deepest : Nat) (source : String) (change : Change) (guard : Option Guard) :
    Verdict :=
  match Formula.parseBounded longest deepest source with
  | .ok formula => formula.evaluate change guard
  | .error e => ⟨.error e, []⟩

/-- Whether a stored rule with such a condition applies to a change. -/
def evaluateRuleBounded (longest deepest : Nat) (rule : Rule) (change : Change) (guard : Option Guard) :
    Verdict :=
  match rule.condition? with
  | some source => evaluateBounded longest deepest source change guard
  | none => ⟨.ok true, []⟩

/-- Bounds that a text keeps have no say in its answer. -/
theorem evaluateBounded_of_within {longest deepest : Nat} {source : String} (change : Change)
    (guard : Option Guard) (short : source.utf8ByteSize ≤ longest) (shallow : TextWithin deepest source) :
    evaluateBounded longest deepest source change guard = evaluate source change guard := by
  unfold evaluateBounded Formula.parseBounded evaluate
  rw [if_neg (Nat.not_lt.mpr short), Formula.parseWithin_eq_parse shallow]
  cases Formula.parse source <;> rfl

namespace Formula

variable {longest deepest : Nat} {source : String}

theorem parseBounded_of_short (short : source.utf8ByteSize ≤ longest) :
    parseBounded longest deepest source = (parseWithin (some deepest) source).mapError .parse := by
  unfold parseBounded
  rw [if_neg (Nat.not_lt.mpr short)]
  cases parseWithin (some deepest) source <;> rfl

theorem parseBounded_of_long (long : longest < source.utf8ByteSize) :
    parseBounded longest deepest source = .error (.sourceTooLong source.utf8ByteSize longest) := by
  unfold parseBounded
  rw [if_pos long]

/-- What is read is a text that keeps both bounds. -/
theorem parseBounded_eq_ok_iff {formula : Formula} : parseBounded longest deepest source = .ok formula ↔
    source.utf8ByteSize ≤ longest ∧ parseWithin (some deepest) source = .ok formula := by
  by_cases short : source.utf8ByteSize ≤ longest
  · rw [parseBounded_of_short short]
    cases parseWithin (some deepest) source <;> simp [Except.mapError, short]
  · simp [parseBounded_of_long (Nat.not_le.mp short), short]

end Formula

namespace Engine

theorem refusal?_eq_none_iff {limits : Limits} {source : String} :
    refusal? limits source = none ↔ source.utf8ByteSize ≤ limits.maxSourceLength := by
  simp [refusal?]

/-- A refusal is what reading the text within both bounds comes to. -/
theorem parseBounded_of_refusal {limits : Limits} {source : String} {e : RuleError}
    (h : refusal? limits source = some e) :
    Formula.parseBounded limits.maxSourceLength limits.maxNestingDepth source = .error e := by
  unfold refusal? at h
  split_ifs at h with long
  cases h
  exact Formula.parseBounded_of_long long

/-! ### What is kept -/

/-- The engine has those limits, and what it keeps was read from its own text within them. -/
structure Sound (limits : Limits) (engine : Engine) : Prop where
  limits_eq : engine.limits = limits
  kept : ∀ entry ∈ engine.cache.entries,
    Formula.parseBounded limits.maxSourceLength limits.maxNestingDepth entry.1 = .ok entry.2.formula

variable {limits : Limits} {engine : Engine}

theorem sound_create (h : create limits = .ok engine) : engine.Sound limits := by
  unfold create at h
  split at h <;> cases h
  exact ⟨rfl, nofun⟩

/-- Keeping drops what was kept or leaves it, and adds the one entry. -/
theorem mem_keep {cache : Cache} {capacity : Nat} {source : String} {shared : Shared}
    {entry : String × Shared} (h : entry ∈ (cache.keep capacity source shared).entries) :
    entry = (source, shared) ∨ entry ∈ cache.entries := by
  have h : entry ∈ Keyed.insert source shared (if capacity ≤ cache.size then [] else cache.entries) := h
  refine (Keyed.mem_insert h).imp_right fun old => ?_
  split_ifs at old
  · cases old
  · exact old

/-- What is found is what the text is read as. -/
theorem Sound.parseBounded_of_kept? (h : engine.Sound limits) {source : String} {shared : Shared}
    (found : engine.kept? source = some shared) :
    Formula.parseBounded limits.maxSourceLength limits.maxNestingDepth source = .ok shared.formula := by
  unfold kept? at found
  split_ifs at found
  exact h.kept (source, shared) (Keyed.mem_of_lookup found)

theorem Sound.remember (h : engine.Sound limits) {source : String} {shared : Shared}
    (read : Formula.parseBounded limits.maxSourceLength limits.maxNestingDepth source = .ok shared.formula) :
    (engine.remember source shared).Sound limits := by
  unfold Engine.remember
  split_ifs
  · refine ⟨h.limits_eq, fun entry mem => ?_⟩
    rcases mem_keep mem with rfl | old
    · exact read
    · exact h.kept entry old
  · exact h

theorem Sound.clearCache (h : engine.Sound limits) : engine.clearCache.Sound limits := ⟨h.limits_eq, nofun⟩

/-! ### Calls -/

/-- Reading through an engine gives what reading without it does, and the engine stays sound. -/
theorem Sound.parse (h : engine.Sound limits) (source : String) :
    (engine.parse source).1.map Shared.formula =
        Formula.parseBounded limits.maxSourceLength limits.maxNestingDepth source ∧
      (engine.parse source).2.Sound limits := by
  unfold Engine.parse
  rw [h.limits_eq]
  cases refused : refusal? limits source with
  | some e => exact ⟨(parseBounded_of_refusal refused).symm, h⟩
  | none =>
    have short := refusal?_eq_none_iff.mp refused
    cases found : engine.kept? source with
    | some shared => exact ⟨(h.parseBounded_of_kept? found).symm, h⟩
    | none =>
      cases read : Formula.parseWithin (some limits.maxNestingDepth) source with
      | error e =>
        rw [Formula.parseBounded_of_short short, read]
        exact ⟨rfl, h⟩
      | ok formula =>
        have bounded := Formula.parseBounded_eq_ok_iff.mpr ⟨short, read⟩
        have stays : (engine.remember source ⟨formula, engine.nextSerial⟩).Sound limits := h.remember bounded
        exact ⟨bounded.symm, stays.limits_eq, stays.kept⟩

theorem Sound.evaluate (h : engine.Sound limits) (source : String) (change : Change) (guard : Option Guard) :
    (engine.evaluate source change guard).1 =
        evaluateBounded limits.maxSourceLength limits.maxNestingDepth source change guard ∧
      (engine.evaluate source change guard).2.Sound limits := by
  obtain ⟨read, stays⟩ := h.parse source
  unfold Engine.evaluate evaluateBounded
  rw [← read]
  cases hp : engine.parse source with
  | mk result after =>
    rw [hp] at stays
    cases result <;> exact ⟨rfl, stays⟩

theorem Sound.evaluateRule (h : engine.Sound limits) (rule : Rule) (change : Change) (guard : Option Guard) :
    (engine.evaluateRule rule change guard).1 =
        evaluateRuleBounded limits.maxSourceLength limits.maxNestingDepth rule change guard ∧
      (engine.evaluateRule rule change guard).2.Sound limits := by
  unfold Engine.evaluateRule evaluateRuleBounded
  cases rule.condition? with
  | none => exact ⟨rfl, h⟩
  | some source => exact h.evaluate source change guard

/-- **A call keeps an engine sound.** -/
theorem sound_respond (h : engine.Sound limits) (call : Call) : (engine.respond call).2.Sound limits := by
  cases call with
  | parse source => exact (h.parse source).2
  | evaluate source change guard => exact (h.evaluate source change guard).2
  | evaluateRule rule change guard => exact (h.evaluateRule rule change guard).2
  | clearCache => exact h.clearCache
  | cachedCount => exact h

end Engine

/-! ### Sessions -/

namespace Fleet

/-- All engines are sound, and every handle has one. -/
structure Sound (limits : Limits) (fleet : Fleet) : Prop where
  engines : ∀ engine ∈ fleet.engines, engine.Sound limits
  handles : ∀ number ∈ fleet.handles, number < fleet.engines.length

variable {limits : Limits} {fleet : Fleet} {handle : Nat}

theorem sound_create (h : create limits = .ok fleet) : fleet.Sound limits := by
  unfold create at h
  split at h <;> cases h
  rename_i engine made
  have sound := Engine.sound_create made
  exact ⟨by simpa using sound, by simp⟩

theorem create_of_valid (h : limits.validate = .ok ()) : ∃ fleet, create limits = .ok fleet := by
  simp [create, Engine.create, h]

/-- A handle leads to a sound engine. -/
theorem Sound.engine? (h : fleet.Sound limits) (live : handle < fleet.handles.length) :
    ∃ number engine, fleet.engine? handle = some (number, engine) ∧ engine.Sound limits := by
  have here := h.handles _ (List.getElem_mem live)
  refine ⟨fleet.handles[handle], fleet.engines[fleet.handles[handle]], ?_, h.engines _ (List.getElem_mem here)⟩
  simp [Fleet.engine?, live, here]

theorem Sound.run {α : Type} {action : Engine → α × Engine} {answer : α} {later : Fleet}
    (h : fleet.Sound limits) (keeps : ∀ engine, engine.Sound limits → (action engine).2.Sound limits)
    (hr : fleet.run handle action = some (answer, later)) : later.Sound limits := by
  unfold Fleet.run Fleet.engine? at hr
  simp only [Option.bind_eq_bind, Option.bind_eq_some_iff, Option.pure_def, Option.some.injEq,
    Prod.mk.injEq] at hr
  obtain ⟨⟨number, engine⟩, ⟨_, _, _, found, rfl, rfl⟩, rfl, rfl⟩ := hr
  have sound := keeps _ (h.engines _ (List.mem_of_getElem? found))
  refine ⟨fun other mem => ?_, fun other mem => ?_⟩
  · rcases List.mem_or_eq_of_mem_set mem with mem | rfl
    · exact h.engines other mem
    · exact sound
  · rw [List.length_set]
    exact h.handles other mem

theorem Sound.clone {number : Nat} {later : Fleet} (h : fleet.Sound limits)
    (hc : fleet.clone handle = some (number, later)) : later.Sound limits := by
  unfold Fleet.clone at hc
  simp only [Option.bind_eq_bind, Option.bind_eq_some_iff, Option.pure_def, Option.some.injEq,
    Prod.mk.injEq] at hc
  obtain ⟨shared, found, rfl, rfl⟩ := hc
  refine ⟨h.engines, fun other mem => ?_⟩
  rcases List.mem_append.mp mem with mem | mem
  · exact h.handles other mem
  · cases List.mem_singleton.mp mem
    exact h.handles _ (List.mem_of_getElem? found)

theorem Sound.next (h : fleet.Sound limits) (event : Event) : (fleet.next event).Sound limits := by
  cases event with
  | call handle call =>
    cases hr : fleet.run handle fun engine => engine.respond call with
    | none => rwa [Fleet.next, hr]
    | some result =>
      rw [Fleet.next, hr]
      exact h.run (fun _ sound => Engine.sound_respond sound call) hr
  | clone handle =>
    cases hc : fleet.clone handle with
    | none => rwa [Fleet.next, hc]
    | some result =>
      rw [Fleet.next, hc]
      exact h.clone hc

/-- **A session keeps all engines sound.** -/
theorem sound_after (h : fleet.Sound limits) (history : List Event) : (fleet.after history).Sound limits := by
  induction history generalizing fleet with
  | nil => exact h
  | cons event rest ih => exact ih (h.next event)

theorem reply?_eq {number : Nat} {engine : Engine} (h : fleet.engine? handle = some (number, engine))
    (call : Call) : fleet.reply? handle call = some (engine.respond call).1 := by
  simp [reply?, Fleet.run, h]

end Fleet

/-- **Memory does not show.** Limits that can be used make an engine. After any history of calls on it and
its clones, whatever handle a call goes through: reading gives the formula or the error of reading within the
two bounds, an evaluation gives the verdict of that formula or that error, a stored rule is evaluated by its
condition, and for a text that keeps both bounds this is the evaluation without an engine. -/
theorem session_replies {limits : Limits} (valid : limits.validate = .ok ()) :
    ∃ fleet, Fleet.create limits = .ok fleet ∧ ∀ (history : List Fleet.Event) (handle : Nat),
      handle < (fleet.after history).handles.length →
        let longest := limits.maxSourceLength
        let deepest := limits.maxNestingDepth
        (∀ source, ∃ result, (fleet.after history).reply? handle (.parse source) = some (.parsed result) ∧
          result.map Shared.formula = Formula.parseBounded longest deepest source) ∧
        (∀ source change guard, (fleet.after history).reply? handle (.evaluate source change guard) =
          some (.verdict (evaluateBounded longest deepest source change guard))) ∧
        (∀ rule change guard, (fleet.after history).reply? handle (.evaluateRule rule change guard) =
          some (.verdict (evaluateRuleBounded longest deepest rule change guard))) ∧
        (∀ source change guard, source.utf8ByteSize ≤ longest → TextWithin deepest source →
          evaluateBounded longest deepest source change guard = evaluate source change guard) := by
  obtain ⟨fleet, created⟩ := Fleet.create_of_valid valid
  refine ⟨fleet, created, fun history handle live => ?_⟩
  have sound := Fleet.sound_after (Fleet.sound_create created) history
  obtain ⟨number, engine, here, kept⟩ := sound.engine? live
  refine ⟨fun source => ?_, fun source change guard => ?_, fun rule change guard => ?_, ?_⟩
  · exact ⟨(engine.parse source).1, Fleet.reply?_eq here _, (kept.parse source).1⟩
  · rw [Fleet.reply?_eq here, ← (kept.evaluate source change guard).1]
    rfl
  · rw [Fleet.reply?_eq here, ← (kept.evaluateRule rule change guard).1]
    rfl
  · exact fun source change guard => evaluateBounded_of_within change guard

/-- A clone asks for a text that the first handle had kept and that a full cache has dropped since. -/
theorem session_replies_clone :
    let limits : Limits := ⟨3, 1, 1⟩
    let history : List Fleet.Event := [.call 0 (.parse "(a)"), .clone 0, .call 1 (.parse "b")]
    let change : Change := ⟨none, [("a", .bool true)]⟩
    limits.validate = .ok () ∧ ∃ fleet, Fleet.create limits = .ok fleet ∧
      1 < (fleet.after history).handles.length ∧
      (fleet.after history).reply? 1 (.evaluate "(a)" change none) = some (.verdict ⟨.ok true, []⟩) ∧
      ∃ result, (fleet.after history).reply? 1 (.parse "a > 1") = some (.parsed result) ∧
        result.map Shared.formula = .error (.sourceTooLong 5 3) := by
  intro limits history change
  have valid : limits.validate = .ok () := rfl
  obtain ⟨fleet, created, replies⟩ := session_replies valid
  have live : 1 < (fleet.after history).handles.length := by
    cases created
    cbv
  obtain ⟨parsed, evaluated, _, plain⟩ := replies history 1 live
  have shallow : TextWithin 1 "(a)" := by
    intro tokens scanned
    have scan : Token.scan "(a)" = .ok [⟨.openParen, 0, 1, 1, 1⟩, ⟨.name "a", 1, 2, 1, 2⟩,
      ⟨.closeParen, 2, 3, 1, 3⟩, ⟨.finish, 3, 3, 1, 4⟩] := by cbv
    cases scan.symm.trans scanned
    decide
  have holds : evaluate "(a)" change none = ⟨.ok true, []⟩ := by cbv
  refine ⟨valid, fleet, created, live, ?_, ?_⟩
  · rw [evaluated, plain "(a)" change none (by decide) shallow, holds]
  · obtain ⟨result, reply, same⟩ := parsed "a > 1"
    exact ⟨result, reply, same.trans (by cbv)⟩

end RecordRules
