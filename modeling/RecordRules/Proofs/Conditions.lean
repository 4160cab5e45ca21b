/-
# Blank conditions are empty expressions

A rule with a blank condition applies without being evaluated, so it matters what counts as
blank. Trimming a text and scanning it go over the same characters: between two places no
token is found exactly if all characters in between are blank (`Crosses.eq_nil_iff`), line
feeds among them. So trimming leaves nothing of a text exactly if the end of the expression
is its only token.

Such a text is no expression, and the fault tells: an operand must come and the end is found,
at the place of the first token (`Formula.FailsEmpty`). Other texts end too early as well, but
their end stands behind other tokens, and no two tokens of a text have one place
(`Formula.failsEmpty_iff`).

Whether a condition is passed over shows in what a call does. A caller whose text is not
passed over is refused or goes on to look the text up (`Caller.start_evaluateRule_iff`), and an
engine that did not keep the text either gives an error or counts one more formula
(`Engine.evaluate_ne_of_missing`).

Key definitions: `Formula.FailsEmpty`, `Rule.Unconditional`, `Engine.InSession`. Key theorems:
`scan_eq_finish_iff`, `Formula.failsEmpty_iff`, `Rule.unconditional_iff`, `blank_conditions_empty`.
-/
import RecordRules.Proofs.Seams
import RecordRules.Proofs.Sharing
import RecordRules.Proofs.Viability

namespace RecordRules

open Parse

/-! ### Texts without lexemes -/

/-- Where no token is found, all characters are blank, and nowhere else. -/
theorem Crosses.eq_nil_iff {p q : Position} {cs : List Char} {tokens : List Token} (h : Crosses p cs tokens q) :
    tokens = [] ↔ Text.allBlank cs = true := by
  induction h with
  | stay => exact ⟨fun _ => rfl, fun _ => rfl⟩
  | blank isBlank _ ih =>
    rw [ih, Text.allBlank, Text.allBlank, List.all_cons, isBlank, Bool.true_and]
  | @lexeme p q text l cs tokens taken _ _ =>
    obtain ⟨c, rest, rfl⟩ := List.exists_cons_of_ne_nil taken.spells.ne_nil
    have solid : Text.isBlank c = false := not_blank_of_spells taken.spells
    simp [Text.allBlank, solid]

section
variable {source : String}

/-- **Nothing but the end.** The end of the expression is the only token of a text exactly if all its characters
are blank. -/
theorem scan_eq_finish_iff :
    (∃ place, Token.scan source = .ok [⟨.finish, place⟩]) ↔ Text.allBlank source.toList = true := by
  constructor
  · rintro ⟨place, scanned⟩
    obtain ⟨inner, q, split, crossed⟩ := scan_eq_ok_iff.mp scanned
    have none : inner = [] := by simpa using congrArg List.length split
    exact crossed.eq_nil_iff.mp none
  · intro blank
    have scans := scans_nil.blanks (List.all_eq_true.mp blank)
    rw [List.append_nil] at scans
    obtain ⟨tokens, scanned, lexemes⟩ := scans .origin
    obtain ⟨⟨_, place⟩, rfl, rfl⟩ := List.map_eq_singleton_iff.mp lexemes
    exact ⟨place, scanned⟩

/-! ### Empty expressions -/

/-- Reading the text fails because it is empty: the end of the expression is found where an operand must come,
and this is at the first token. -/
def Formula.FailsEmpty (source : String) : Prop :=
  ∃ tokens e, Token.scan source = .ok tokens ∧ Formula.parse source = .error e ∧
    e.fault = .unexpectedEnd ∧ e.Behind [] tokens

/-- If it is the end that is out of place, all tokens in front of it are taken. -/
theorem Formula.taken_of_unexpectedEnd {tokens : List Token} {e : SyntaxError}
    (scanned : Token.scan source = .ok tokens) (failed : Formula.parse source = .error e)
    (fault : e.fault = .unexpectedEnd) : State.start.taken (body tokens) = body tokens := by
  have concluded := (Formula.parseWithin_of_scan scanned).symm.trans failed
  obtain ⟨stopped, -, ⟨token, rest, split, -, rfl⟩ | ⟨all, -, -⟩⟩ := stopped_behind_taken concluded
  · have inside : token ∈ body tokens := by
      rw [split]
      exact List.mem_append_right _ List.mem_cons_self
    have found : some token.lexeme = some .finish :=
      (stopped.found?_refusal token.lexeme).symm.trans (congrArg SyntaxFault.found? fault)
    have other : token.lexeme ≠ .finish := of_decide_eq_true (List.all_eq_true.mp List.all_takeWhile token inside)
    exact absurd (Option.some.inj found) other
  · exact all

/-- **Empty expressions.** What cannot be read because it is empty are the texts of blanks. -/
theorem Formula.failsEmpty_iff : Formula.FailsEmpty source ↔ Text.allBlank source.toList = true := by
  constructor
  · rintro ⟨tokens, e, scanned, failed, fault, first⟩
    have all := taken_of_unexpectedEnd scanned failed fault
    -- the fault lies at the end of the expression, and at the first token
    have behind := behind_taken_of_scan scanned failed
    rw [all] at behind
    have none : body tokens = [] := behind.unique (ordered_of_scan scanned) first
    have only := body_of_scan scanned
    rw [none, List.nil_append] at only
    rw [← only] at scanned
    exact scan_eq_finish_iff.mp ⟨_, scanned⟩
  · intro blank
    obtain ⟨place, scanned⟩ := scan_eq_finish_iff.mpr blank
    have failed : Formula.parse source = .error ⟨.unexpectedEnd, place.line, place.column⟩ :=
      Formula.parseWithin_of_scan scanned
    exact ⟨_, _, scanned, failed, rfl, _, [], rfl, rfl, rfl⟩

end

/-! ### Conditions -/

namespace Rule

variable {rule : Rule} {source : String}

/-- The rule has no condition, or one that cannot be read because it is empty. -/
def Unconditional (rule : Rule) : Prop :=
  rule.given = none ∨ ∃ source, rule.given = some source ∧ Formula.FailsEmpty source

theorem condition?_of_blank (given : rule.given = some source) (blank : Text.allBlank source.toList = true) :
    rule.condition? = none := by
  rw [condition?, given, Option.filter_some, blank]
  rfl

/-- A condition that is not blank stays as it was given. -/
theorem condition?_of_not_blank (given : rule.given = some source)
    (solid : ¬ Text.allBlank source.toList = true) : rule.condition? = some source := by
  rw [condition?, given, Option.filter_some, Bool.eq_false_iff.mpr solid]
  rfl

theorem condition?_eq_none_iff (given : rule.given = some source) :
    rule.condition? = none ↔ Text.allBlank source.toList = true := by
  refine ⟨fun absent => ?_, condition?_of_blank given⟩
  by_contra solid
  cases absent.symm.trans (condition?_of_not_blank given solid)

/-- The rules that count as unconditional are those without a condition and those with an empty one. -/
theorem unconditional_iff : rule.Unconditional ↔ rule.condition? = none := by
  cases given : rule.given with
  | none => simp [Unconditional, condition?, given]
  | some source => simp [Unconditional, given, condition?_eq_none_iff given, Formula.failsEmpty_iff]

end Rule

/-! ### What the engine does about them -/

section
variable {engine : Engine} {rule : Rule} {source : String}

theorem Engine.evaluateRule_of_none (absent : rule.condition? = none) (change : Change) (guard : Option Guard) :
    engine.evaluateRule rule change guard = (⟨.ok true, []⟩, engine) := by
  rw [evaluateRule, absent]

theorem Engine.evaluateRule_of_some (stored : rule.condition? = some source) (change : Change)
    (guard : Option Guard) : engine.evaluateRule rule change guard = engine.evaluate source change guard := by
  rw [evaluateRule, stored]

/-- An engine that evaluates a text it did not keep gives an error or is not left as it was. -/
theorem Engine.evaluate_ne_of_missing (missing : engine.kept? source = none) (change : Change)
    (guard : Option Guard) : engine.evaluate source change guard ≠ (⟨.ok true, []⟩, engine) := by
  intro same
  cases parsed : engine.parse source with
  | mk result later =>
    simp only [evaluate, parsed] at same
    cases reads_of_parse parsed with
    | refused => cases same
    | found found => cases missing.symm.trans found
    | fresh =>
      have counted : engine.nextSerial + 1 = engine.nextSerial :=
        congrArg (fun pair : Verdict × Engine => pair.2.nextSerial) same
      omega

/-- **Passed over.** A call for a rule is over at once, and its reply is that the rule applies, exactly if no
condition of the rule counts. -/
theorem Caller.start_evaluateRule_iff (caller : Caller) (change : Change) (guard : Option Guard) :
    caller.start (.evaluateRule rule change guard) engine =
        (caller.settle (.evaluateRule rule change guard) (.verdict ⟨.ok true, []⟩), engine) ↔
      rule.condition? = none := by
  cases condition : rule.condition? with
  | none =>
    refine iff_of_true ?_ rfl
    have noNeed : (Call.evaluateRule rule change guard).need? = none := Option.map_eq_none_iff.mpr condition
    unfold start
    split
    · rw [Engine.respond, Engine.evaluateRule_of_none condition]
    · rename_i need
      cases noNeed.symm.trans need
  | some source =>
    refine iff_of_false (fun same => ?_) (Option.some_ne_none source)
    have need : (Call.evaluateRule rule change guard).need? = some (source, .judge change guard) := by
      rw [Call.need?, condition]
      rfl
    rw [start_of_need caller ⟨_, source, _, need⟩] at same
    -- the text is too long, which the reply says, or it is looked up next
    split at same
    · have logs := congrArg (fun pair : Caller × Engine => pair.1.log.getLast?) same
      simp [finish, settle, Purpose.reply] at logs
    · cases congrArg (fun pair : Caller × Engine => pair.1.stage) same

end

/-- The engine is one that a session under those limits comes to. -/
def Engine.InSession (limits : Limits) (engine : Engine) : Prop :=
  ∃ fleet history handle number, Fleet.create limits = .ok fleet ∧
    (fleet.after history).engine? handle = some (number, engine)

theorem Engine.InSession.sound {limits : Limits} {engine : Engine} (h : engine.InSession limits) :
    engine.Sound limits := by
  obtain ⟨fleet, history, handle, number, created, here⟩ := h
  have sound := Fleet.sound_after (Fleet.sound_create created) history
  simp only [Fleet.engine?, Option.bind_eq_bind, Option.bind_eq_some_iff, Option.pure_def, Option.some.injEq,
    Prod.mk.injEq] at here
  obtain ⟨_, _, _, found, rfl, rfl⟩ := here
  exact sound.engines _ (List.mem_of_getElem? found)

/-- **Blank conditions are empty expressions.** A condition counts as none exactly if trimming leaves nothing of
it, and exactly if the end of the expression is its only token. A call for a rule is over at once, with the reply
that the rule applies, exactly if the rule has no condition or one that cannot be read because it is empty. The
engine is then left as it was, which it is not by a condition that it does not keep and that applies. Any other
condition is evaluated as it was given, and in a session the answer is what the limits, reading and the guard
make of it. -/
theorem blank_conditions_empty (rule : Rule) (engine : Engine) (change : Change) (guard : Option Guard) :
    (∀ source, rule.given = some source →
      (rule.condition? = none ↔ Text.trim source.toList = []) ∧
      (rule.condition? = none ↔ ∃ place, Token.scan source = .ok [⟨.finish, place⟩])) ∧
    (∀ caller : Caller, caller.start (.evaluateRule rule change guard) engine =
        (caller.settle (.evaluateRule rule change guard) (.verdict ⟨.ok true, []⟩), engine) ↔
      rule.Unconditional) ∧
    (rule.Unconditional → engine.evaluateRule rule change guard = (⟨.ok true, []⟩, engine)) ∧
    ((∀ source, rule.given = some source → engine.kept? source = none) →
      engine.evaluateRule rule change guard = (⟨.ok true, []⟩, engine) → rule.Unconditional) ∧
    ∀ source, rule.given = some source → ¬ Formula.FailsEmpty source →
      rule.condition? = some source ∧
      engine.evaluateRule rule change guard = engine.evaluate source change guard ∧
      ∀ limits, engine.InSession limits → (engine.evaluateRule rule change guard).1 =
        evaluateBounded limits.maxSourceLength limits.maxNestingDepth source change guard := by
  refine ⟨fun source given => ?_, fun caller => ?_, fun unconditional => ?_, fun missing applies => ?_,
    fun source given other => ?_⟩
  · rw [Rule.condition?_eq_none_iff given]
    exact ⟨Text.trim_eq_nil_iff.symm, scan_eq_finish_iff.symm⟩
  · rw [Rule.unconditional_iff]
    exact caller.start_evaluateRule_iff change guard
  · exact Engine.evaluateRule_of_none (Rule.unconditional_iff.mp unconditional) change guard
  · rw [Rule.unconditional_iff]
    by_contra present
    obtain ⟨source, stored⟩ := Option.ne_none_iff_exists'.mp present
    have given : rule.given = some source := (Option.filter_eq_some_iff.mp stored).1
    rw [Engine.evaluateRule_of_some stored] at applies
    exact Engine.evaluate_ne_of_missing (missing source given) change guard applies
  · have solid : ¬ Text.allBlank source.toList = true := fun blank => other (Formula.failsEmpty_iff.mpr blank)
    have stored := Rule.condition?_of_not_blank given solid
    have same : engine.evaluateRule rule change guard = engine.evaluate source change guard :=
      Engine.evaluateRule_of_some stored change guard
    refine ⟨stored, same, fun limits reached => ?_⟩
    rw [same]
    exact (reached.sound.evaluate source change guard).1

/-- Blanks of more bytes than a text may have, under a guard that refuses every field: the rule applies. A space
without width is no blank, and with a name between blanks the guard is asked. -/
theorem blank_conditions_empty_wide :
    let limits : Limits := ⟨3, 1, 1⟩
    let engine : Engine := ⟨limits, .empty, 0⟩
    let change : Change := ⟨none, [("a", .bool true)]⟩
    let guard : Guard := fun path => some (.host path)
    let wide : Rule := .validation (some "\u2003\n\u0085") ["fee"]
    let hidden : Rule := .assignment (some "\u200b") []
    let named : Rule := .assignment (some "\na ") []
    engine.InSession limits ∧ limits.maxSourceLength < "\u2003\n\u0085".utf8ByteSize ∧
      wide.condition? = none ∧ (∃ place, Token.scan "\u2003\n\u0085" = .ok [⟨.finish, place⟩]) ∧
      wide.Unconditional ∧ engine.evaluateRule wide change (some guard) = (⟨.ok true, []⟩, engine) ∧
      ¬ Formula.FailsEmpty "\u200b" ∧ (engine.evaluateRule hidden change (some guard)).1 =
        ⟨.error (.parse ⟨.unexpectedCharacter '\u200b' 0, 1, 1⟩), []⟩ ∧
      ¬ Formula.FailsEmpty "\na " ∧ (engine.evaluateRule named change (some guard)).1 =
        ⟨.error (.fieldRejected "a" (.host "a")), ["a"]⟩ := by
  intro limits engine change guard wide hidden named
  have reached : engine.InSession limits := ⟨⟨[engine], [0]⟩, [], 0, 0, rfl, rfl⟩
  have absent : wide.condition? = none := by decide
  obtain ⟨counts, _, passed, only, _⟩ := blank_conditions_empty wide engine change (some guard)
  have applies : engine.evaluateRule wide change (some guard) = (⟨.ok true, []⟩, engine) := rfl
  have unconditional : wide.Unconditional := only (fun _ _ => rfl) applies
  have solid : ¬ Formula.FailsEmpty "\u200b" := fun empty =>
    absurd (Formula.failsEmpty_iff.mp empty) (by decide)
  have solid' : ¬ Formula.FailsEmpty "\na " := fun empty => absurd (Formula.failsEmpty_iff.mp empty) (by decide)
  obtain ⟨_, _, _, _, refuses⟩ := blank_conditions_empty hidden engine change (some guard)
  obtain ⟨_, _, asked⟩ := refuses "\u200b" rfl solid
  obtain ⟨_, _, _, _, asks⟩ := blank_conditions_empty named engine change (some guard)
  obtain ⟨_, _, answered⟩ := asks "\na " rfl solid'
  refine ⟨reached, by decide, absent, (counts _ rfl).2.mp absent, unconditional, passed unconditional, solid, ?_,
    solid', ?_⟩
  · rw [asked limits reached]
    cbv
  · rw [answered limits reached]
    cbv

end RecordRules
