/-
# How a guard is asked

A text that is not read asks no guard. Once it is read, the guard is asked about the fields that
the formula names in ascending order, up to the first that it refuses. If there is one, the
answer says which and why, whatever the record holds and whatever evaluating the formula would
have come to; if there is none, the answer is the one without a guard
(`Formula.evaluate_of_refused`, `Formula.evaluate_of_permitted`).

The order is that of code points, and the bytes of the texts come in the same order
(`Text.utf8_lt`): the first byte of a character tells how many there are and is greater the more
there are, and those behind it are digits to the base of 64.

A guard is a function of the path. A host may answer otherwise the second time it is asked, but
there is no second time: no path comes twice, so what the host answers in one evaluation is what
a guard answers (`Guard.askInTurn_eq`).

Key definitions: `Text.utf8`, `Guard.askInTurn`. Key theorems: `Text.utf8_lt`,
`Formula.evaluate_of_refused`, `Formula.evaluate_of_permitted`, `guard_decides_first`.
-/
import RecordRules.Proofs.StoredFormulas

namespace RecordRules

/-! ### The order of bytes -/

namespace Text

/-- The bytes of a text. -/
def utf8 (s : String) : List UInt8 := s.toByteArray.data.toList

theorem utf8_eq (s : String) : utf8 s = s.toList.flatMap String.utf8EncodeChar := by
  rw [utf8, ← String.utf8Encode_toList, List.utf8Encode, List.data_toByteArray]

/-- The bytes of a lesser character come first, whatever is behind them. -/
theorem utf8EncodeChar_lt {c d : Char} (before : c < d) (behind behind' : List UInt8) :
    String.utf8EncodeChar c ++ behind < String.utf8EncodeChar d ++ behind' := by
  have less : c.val.toNat < d.val.toNat := before
  have last : d.val.toNat < 0x110000 := by
    have valid := d.valid
    unfold UInt32.isValidChar Nat.isValidChar at valid
    omega
  -- each byte but the first is a digit to the base of 64
  have twice (n : Nat) : n / 4096 = n / 64 / 64 := by omega
  have thrice (n : Nat) : n / 262144 = n / 64 / 64 / 64 := by omega
  unfold String.utf8EncodeChar
  generalize c.val.toNat = m, d.val.toNat = n at less last
  dsimp only
  -- one case for each number of bytes of the one and of the other
  split_ifs <;>
    simp only [List.cons_append, List.nil_append, List.cons_lt_cons_iff, UInt8.lt_iff_toNat_lt, ← UInt8.toNat_inj,
      UInt8.toNat_ofNat', twice, thrice] <;> omega

theorem flatMap_utf8EncodeChar_lt {cs ds : List Char} (before : cs < ds) :
    cs.flatMap String.utf8EncodeChar < ds.flatMap String.utf8EncodeChar := by
  induction cs generalizing ds with
  | nil =>
    cases ds with
    | nil => exact absurd before (List.lt_irrefl _)
    | cons d ds =>
      obtain ⟨byte, bytes, encoded⟩ := List.exists_cons_of_ne_nil (String.utf8EncodeChar_ne_nil (c := d))
      rw [List.flatMap_nil, List.flatMap_cons, encoded]
      exact List.nil_lt_cons _ _
  | cons c cs ih =>
    cases ds with
    | nil => exact absurd before (List.not_lt_nil _)
    | cons d ds =>
      rw [List.flatMap_cons, List.flatMap_cons]
      rcases List.cons_lt_cons_iff.mp before with first | ⟨rfl, rest⟩
      · exact utf8EncodeChar_lt first _ _
      · exact List.append_left_lt (ih rest)

/-- **Code points and bytes come in one order.** -/
theorem utf8_lt {s t : String} (before : s < t) : utf8 s < utf8 t := by
  rw [utf8_eq, utf8_eq]
  exact flatMap_utf8EncodeChar_lt (String.lt_iff_toList_lt.mp before)

end Text

theorem NameSet.pairwise_utf8 (names : NameSet) : (names.toList.map Text.utf8).Pairwise (· < ·) :=
  List.pairwise_map.mpr (names.ascending.imp Text.utf8_lt)

/-! ### Asking -/

namespace Guard

variable {guard : Guard} {paths : List String}

theorem refused_eq_none_iff : (guard.askAll paths).refused = none ↔ ∀ path ∈ paths, guard path = none :=
  ⟨askAll_eq_none, refused_eq_none⟩

/-! A host may remember what it was asked about. -/

/-- Asks a host about one path after the other, up to the first that is refused. It knows what it was asked about
before. -/
def askInTurn (host : List String → Guard) (before : List String) : List String → Answer
  | [] => ⟨[], none⟩
  | path :: rest =>
    match host before path with
    | some reason => ⟨[path], some (path, reason)⟩
    | none =>
      let answer := askInTurn host (before ++ [path]) rest
      ⟨path :: answer.asked, answer.refused⟩

/-- What a host says about each of some paths when it comes to be asked about it. -/
def inTurn (host : List String → Guard) (paths : List String) : Guard := fun path =>
  host (paths.takeWhile (· ≠ path)) path

/-- **Asked once.** If no path comes twice, a host that remembers is asked as a guard is. -/
theorem askInTurn_eq (host : List String → Guard) (nodup : paths.Nodup) :
    askInTurn host [] paths = (inTurn host paths).askAll paths := by
  suffices ∀ before, (before ++ paths).Nodup →
      askInTurn host before paths = (inTurn host (before ++ paths)).askAll paths from this [] nodup
  clear nodup
  induction paths with
  | nil => exact fun _ _ => rfl
  | cons path rest ih =>
    intro before nodup
    have here : inTurn host (before ++ path :: rest) path = host before path := by
      have new : path ∉ before := fun mem => List.disjoint_of_nodup_append nodup mem List.mem_cons_self
      have passed : (before ++ path :: rest).takeWhile (· ≠ path) = before := by
        have others : ∀ other ∈ before, decide (other ≠ path) = true := by
          rintro other mem
          refine decide_eq_true ?_
          rintro rfl
          exact new mem
        rw [List.takeWhile_append_of_pos others]
        simp
      rw [inTurn, passed]
    have whole : before ++ path :: rest = (before ++ [path]) ++ rest := List.append_cons before path rest
    rw [askInTurn, askAll, here]
    cases host before path with
    | some reason => rfl
    | none =>
      dsimp only
      rw [whole, ih (before ++ [path]) (whole ▸ nodup)]

end Guard

/-! ### Evaluating under a guard -/

namespace Formula

variable {formula : Formula} {guard : Guard}

theorem evaluate_of_permitted (permitted : ∀ path ∈ formula.names.fields, guard path = none) (change : Change) :
    formula.evaluate change (some guard) = ⟨formula.holds change, formula.names.fields.toList⟩ := by
  have asked : guard.check formula.names.fields = ⟨formula.names.fields.toList, none⟩ :=
    Guard.askAll_of_permitted permitted
  simp only [evaluate, asked]

theorem evaluate_of_refused {front behind : List String} {path : String} {reason : Rejection}
    (parts : formula.names.fields.toList = front ++ path :: behind)
    (permitted : ∀ other ∈ front, guard other = none) (refused : guard path = some reason) (change : Change) :
    formula.evaluate change (some guard) = ⟨.error (.fieldRejected path reason), front ++ [path]⟩ := by
  have asked : guard.check formula.names.fields = ⟨front ++ [path], some (path, reason)⟩ := by
    rw [Guard.check, parts, Guard.askAll_of_refused permitted refused]
  simp only [evaluate, asked]

end Formula

/-- **The guard decides first, and alone.** A text that is not read asks nothing. Of a formula, the fields that it
names are asked about in the order of their bytes, each once, up to the first that is refused. If there is one, it
is the least of those that are refused, and the answer names it with the guard's reason for every change; if there
is none, the answer is the one without a guard. A host that remembers is asked as some guard is. -/
theorem guard_decides_first (source : String) (guard : Guard) :
    (∀ error, Formula.parse source = .error error →
      ∀ change, evaluate source change (some guard) = ⟨.error (.parse error), []⟩) ∧
      ∀ formula, Formula.parse source = .ok formula →
        (formula.names.fields.toList.map Text.utf8).Pairwise (· < ·) ∧
          ((∃ path ∈ formula.names.fields, guard path ≠ none) →
            ∃ front path behind reason, formula.names.fields.toList = front ++ path :: behind ∧
              (∀ other ∈ front, guard other = none) ∧ guard path = some reason ∧
              (∀ other ∈ formula.names.fields, guard other ≠ none →
                other = path ∨ Text.utf8 path < Text.utf8 other) ∧
              ∀ change, evaluate source change (some guard) =
                ⟨.error (.fieldRejected path reason), front ++ [path]⟩) ∧
          ((∀ path ∈ formula.names.fields, guard path = none) →
            ∀ change, evaluate source change (some guard) =
              ⟨(evaluate source change none).answer, formula.names.fields.toList⟩) ∧
          (∀ change, (evaluate source change (some guard)).Refused ↔
            ∃ path ∈ formula.names.fields, guard path ≠ none) ∧
          ∀ host : List String → Guard, ∃ steady : Guard,
            Guard.askInTurn host [] formula.names.fields.toList = steady.check formula.names.fields := by
  refine ⟨fun error failed change => ?_, fun formula parsed => ?_⟩
  · rw [evaluate, failed]
  have evaluated (change : Change) (guard : Option Guard) :
      evaluate source change guard = formula.evaluate change guard := by
    rw [evaluate, parsed]
  have bytes := formula.names.fields.pairwise_utf8
  refine ⟨bytes, ?_, ?_, ?_, ?_⟩
  · intro someRefused
    obtain ⟨front, path, behind, reason, parts, permitted, refused⟩ := Guard.exists_first_refused someRefused
    refine ⟨front, path, behind, reason, parts, permitted, refused, ?_, fun change => ?_⟩
    · intro other mem otherRefused
      have mem : other ∈ formula.names.fields.toList := mem
      rw [parts, List.mem_append] at mem
      have among := mem.resolve_left fun inFront => otherRefused (permitted other inFront)
      rw [parts, List.map_append, List.pairwise_append] at bytes
      have least := (List.pairwise_cons.mp bytes.2.1).1
      exact (List.mem_cons.mp among).imp_right fun later => least _ (List.mem_map_of_mem later)
    · rw [evaluated, Formula.evaluate_of_refused parts permitted refused]
  · intro permitted change
    rw [evaluated, evaluated, Formula.evaluate_of_permitted permitted]
    rfl
  · intro change
    rw [evaluated, Formula.refused_evaluate_iff, Guard.check, ne_eq, Guard.refused_eq_none_iff, not_forall₂]
    exact exists_congr fun path => exists_prop
  · intro host
    have once : formula.names.fields.toList.Nodup :=
      formula.names.fields.ascending.imp fun before => String.ne_of_lt before
    exact ⟨Guard.inTurn host formula.names.fields.toList, Guard.askInTurn_eq host once⟩

/-- The last two of four fields are refused. Their characters have three and four bytes, and the one with three
comes first. Evaluating would fail at the call, which comes first in the text. -/
theorem guard_decides_first_bytes :
    let source := "nope(stage) or changed('𝕒') or get('ｓ') == 1 or owner.id"
    let guard : Guard := fun path => if path = "ｓ" ∨ path = "𝕒" then some (.host path) else none
    (evaluate source ⟨none, []⟩ none).answer = .error (.eval (.unsupportedFunction "nope")) ∧
      (∀ change, evaluate source change (some guard) =
        ⟨.error (.fieldRejected "ｓ" (.host "ｓ")), ["owner.id", "stage", "ｓ"]⟩) ∧
      (∀ change, evaluate source change (some fun _ => none) =
        ⟨(evaluate source change none).answer, ["owner.id", "stage", "ｓ", "𝕒"]⟩) ∧
      ∀ change, (evaluate "stage ==" change (some guard)).asked = [] := by
  intro source guard
  have read : (Formula.parse source).toOption.map (fun formula => formula.names.fields.toList) =
      some ["owner.id", "stage", "ｓ", "𝕒"] := by decide +kernel
  have unread : (Formula.parse "stage ==").toOption.isNone = true := by decide +kernel
  have failed : (evaluate source ⟨none, []⟩ none).answer = .error (.eval (.unsupportedFunction "nope")) := by
    decide +kernel
  obtain ⟨formula, parsed, fields⟩ := Option.map_eq_some_iff.mp read
  rw [toOption_eq_some_iff] at parsed
  obtain ⟨_, refusing, _⟩ := (guard_decides_first source guard).2 formula parsed
  obtain ⟨_, _, permitting, _⟩ := (guard_decides_first source fun _ => none).2 formula parsed
  refine ⟨failed, fun change => ?_, fun change => ?_, fun change => ?_⟩
  · have refused : ∃ path ∈ formula.names.fields, guard path ≠ none := by
      refine ⟨"ｓ", ?_, by decide⟩
      show "ｓ" ∈ formula.names.fields.toList
      rw [fields]
      decide
    obtain ⟨front, path, behind, reason, _, _, _, _, answered⟩ := refusing refused
    have here := answered ⟨none, []⟩
    have answer : (evaluate source ⟨none, []⟩ (some guard)).answer =
        .error (.fieldRejected "ｓ" (.host "ｓ")) := by decide +kernel
    have asked : (evaluate source ⟨none, []⟩ (some guard)).asked = ["owner.id", "stage", "ｓ"] := by decide +kernel
    rw [answered change, ← answer, ← asked, here]
  · rw [permitting (fun _ _ => rfl) change, fields]
  · cases broken : Formula.parse "stage ==" with
    | ok => rw [broken] at unread; cases unread
    | error error => rw [(guard_decides_first "stage ==" guard).1 error broken change]

end RecordRules
