/-
# What lies below a path

A path followed by a point and a second path leads where the segments of the second lead from
the value that the first leads to (`Record.find?_below`). A segment enters a map or an array
and takes one value out of it (`Path.enter`), so a path leads to a part of the record
(`Record.within_find?`).

Equal values are alike inside as well. What a segment takes out of the one it takes out of the
other, and the two are equal (`Path.enter_unchanged`); so it is with any number of segments.
Whether a field is changed follows that equality, so a field without a change has no change
anywhere below it. Read the other way, a change cannot hide: whatever reports it below a path
reports it at the path.

Key definitions: `Path.segments`, `Path.enter`, `Unchanged`. Key theorems: `Record.find?_below`,
`Path.descend_unchanged`, `Change.changed_eq_false_iff`, `changed_of_changed_below`.
-/
import RecordRules.Proofs.Normalizing

namespace RecordRules

/-! ### Segments -/

/-- A text is cut at a separator in it, and on either side of that as it would be cut alone. -/
theorem Text.cut_append (separator : Char) (before after : List Char) :
    cut separator (before ++ separator :: after) =
      ((cut separator before).1, (cut separator before).2 ++ (cut separator after).1 :: (cut separator after).2) := by
  induction before with
  | nil => simp [cut]
  | cons c before ih => by_cases h : c = separator <;> simp [cut, ih, h]

namespace Path

/-- The texts between the points of a path. -/
def segments (path : String) : List (List Char) :=
  (Text.cut '.' path.toList).1 :: (Text.cut '.' path.toList).2

theorem segments_below (path below : String) :
    segments (path ++ "." ++ below) = segments path ++ segments below := by
  have text : (path ++ "." ++ below).toList = path.toList ++ '.' :: below.toList := by simp
  rw [segments, text, Text.cut_append]
  rfl

/-- The value that one segment leads to from a value. -/
def enter : Value → List Char → Option Value
  | .map entries, segment => entries.lookup (String.ofList segment)
  | .array items, segment => (Text.word64? segment).bind fun i => items[i]?
  | _, _ => none

theorem descend_nil (v : Value) : descend v [] = some v := by
  cases v <;> rfl

theorem descend_cons (v : Value) (segment : List Char) (rest : List (List Char)) :
    descend v (segment :: rest) = (enter v segment).bind fun value => descend value rest := by
  cases v with
  | array items => exact (Option.bind_assoc _ _ _).symm
  | _ => rfl

/-- The way goes on from where its first part leads. -/
theorem descend_append (v : Value) (front behind : List (List Char)) :
    descend v (front ++ behind) = (descend v front).bind fun value => descend value behind := by
  induction front generalizing v with
  | nil => rw [List.nil_append, descend_nil, Option.bind_some]
  | cons segment front ih =>
    rw [List.cons_append, descend_cons, descend_cons, Option.bind_assoc]
    exact congrArg (enter v segment).bind (funext ih)

end Path

/-- **Below a path.** -/
theorem Record.find?_below (record : Record) (path below : String) : Record.find? record (path ++ "." ++ below) =
    (Record.find? record path).bind fun value => Path.descend value (Path.segments below) := by
  calc Record.find? record (path ++ "." ++ below)
      = Path.descend (.map record) (Path.segments (path ++ "." ++ below)) := rfl
    _ = Path.descend (.map record) (Path.segments path ++ Path.segments below) := by rw [Path.segments_below]
    _ = (Path.descend (.map record) (Path.segments path)).bind fun value =>
          Path.descend value (Path.segments below) := Path.descend_append _ _ _

/-! ### Parts of a value -/

/-- What stands in a part stands in the whole. -/
theorem Value.Within.trans {u v w : Value} (inner : u.Within v) (outer : v.Within w) : u.Within w := by
  induction outer with
  | self => exact inner
  | item mem _ ih => exact .item mem ih
  | entry mem _ ih => exact .entry mem ih

namespace Path

variable {v w : Value}

theorem within_enter {segment : List Char} (found : enter v segment = some w) : w.Within v := by
  cases v with
  | map entries => exact .entry (Keyed.mem_of_lookup found) .self
  | array items =>
    obtain ⟨i, _, item⟩ := Option.bind_eq_some_iff.mp found
    exact .item (List.mem_of_getElem? item) .self
  | _ => cases found

theorem within_descend {way : List (List Char)} (found : descend v way = some w) : w.Within v := by
  induction way generalizing v with
  | nil =>
    rw [descend_nil] at found
    cases found
    exact .self
  | cons segment rest ih =>
    rw [descend_cons] at found
    obtain ⟨u, entered, found⟩ := Option.bind_eq_some_iff.mp found
    exact (ih found).trans (within_enter entered)

end Path

/-- **Inside.** A path leads to a part of the record. -/
theorem Record.within_find? {record : Record} {path : String} {v : Value}
    (found : Record.find? record path = some v) : v.Within (.map record) := by
  have led : Path.descend (.map record) (Path.segments path) = some v := found
  exact Path.within_descend led

/-! ### Equal values -/

/-- There is a value on neither side, or there are equal ones on both. -/
abbrev Unchanged : Option Value → Option Value → Prop := Option.Rel fun v w => v.deepEqual w = true

/-- Values that are looked for by equal ways from equal values. -/
theorem Unchanged.bind {x y : Option Value} {f : Value → Option Value} (h : Unchanged x y)
    (each : ∀ v w, v.deepEqual w = true → Unchanged (f v) (f w)) : Unchanged (x.bind f) (y.bind f) := by
  cases h with
  | none => exact .none
  | some equal => exact each _ _ equal

namespace Value

theorem lookup_unchanged {xs ys : List (String × Value)} (equal : deepEqualEntries xs ys = true) (name : String) :
    Unchanged (xs.lookup name) (ys.lookup name) := by
  have entries := deepEqualEntries_iff_forall₂.mp equal
  clear equal
  induction entries with
  | nil => exact .none
  | @cons x y xs ys first _ ih =>
    obtain ⟨sameName, equal⟩ := first
    rw [List.lookup_cons, List.lookup_cons, ← sameName]
    cases name == x.1 with
    | true => exact .some equal
    | false => exact ih

theorem getElem?_unchanged {xs ys : List Value} (equal : deepEqualItems xs ys = true) (i : Nat) :
    Unchanged xs[i]? ys[i]? := by
  induction xs generalizing ys i with
  | nil =>
    cases ys with
    | nil => exact .none
    | cons => cases equal
  | cons x xs ih =>
    cases ys with
    | nil => cases equal
    | cons y ys =>
      obtain ⟨first, rest⟩ := Bool.and_eq_true_iff.mp equal
      cases i with
      | zero => exact .some first
      | succ i => exact ih rest i

end Value

namespace Path

variable {v w : Value}

/-- **One step down.** -/
theorem enter_unchanged (equal : v.deepEqual w = true) (segment : List Char) :
    Unchanged (enter v segment) (enter w segment) := by
  cases v with
  | map entries =>
    cases w with
    | map => exact Value.lookup_unchanged equal _
    | _ => cases equal
  | array items =>
    cases w with
    | array others =>
      show Unchanged ((Text.word64? segment).bind (items[·]?)) ((Text.word64? segment).bind (others[·]?))
      cases Text.word64? segment with
      | none => exact .none
      | some i => exact Value.getElem?_unchanged equal i
    | _ => cases equal
  | _ =>
    -- a value that cannot be entered equals only such values
    cases w with
    | map | array => cases equal
    | _ => exact .none

/-- **All the way down.** -/
theorem descend_unchanged (equal : v.deepEqual w = true) (way : List (List Char)) :
    Unchanged (descend v way) (descend w way) := by
  induction way generalizing v w with
  | nil =>
    rw [descend_nil, descend_nil]
    exact .some equal
  | cons segment rest ih =>
    rw [descend_cons, descend_cons]
    exact (enter_unchanged equal segment).bind fun _ _ => ih

end Path

/-! ### Changes -/

namespace Change

variable {change : Change} {path : String}

/-- **No change.** Decimals count as their numbers in equality anyway. -/
theorem changed_eq_false_iff :
    change.changed path = false ↔ Unchanged (change.findBefore? path) (change.findAfter? path) := by
  unfold changed
  cases change.findBefore? path with
  | none =>
    cases change.findAfter? path with
    | none => exact iff_of_true rfl .none
    | some after => exact iff_of_false nofun nofun
  | some before =>
    cases change.findAfter? path with
    | none => exact iff_of_false nofun nofun
    | some after =>
      rw [Bool.not_eq_false', Value.deepEqual_normalize]
      constructor
      · intro equal
        exact .some equal
      · rintro ⟨equal⟩
        exact equal

theorem findBefore?_below (change : Change) (path below : String) : change.findBefore? (path ++ "." ++ below) =
    (change.findBefore? path).bind fun value => Path.descend value (Path.segments below) := by
  unfold findBefore?
  rw [Option.bind_assoc]
  exact congrArg change.before.bind (funext fun record => Record.find?_below record path below)

theorem findAfter?_below (change : Change) (path below : String) : change.findAfter? (path ++ "." ++ below) =
    (change.findAfter? path).bind fun value => Path.descend value (Path.segments below) :=
  Record.find?_below change.after path below

/-- Where nothing has changed, nothing has changed below. -/
theorem changed_below_eq_false (same : change.changed path = false) (below : String) :
    change.changed (path ++ "." ++ below) = false := by
  rw [changed_eq_false_iff, findBefore?_below, findAfter?_below]
  exact (changed_eq_false_iff.mp same).bind fun _ _ equal => Path.descend_unchanged equal _

end Change

/-- `changed` of a path that is written out has an answer, whatever else the call is given. -/
theorem Expr.eval_changed (change : Change) (path : String) (more : List Expr) :
    (call "changed" (literal (.string path) :: more)).eval change = .ok (.bool (change.changed path)) := rfl

/-- **Changes are reported upwards.** If `changed` of a path with a further path behind a point is true, then
`changed` of the first path is true. -/
theorem changed_of_changed_below (change : Change) (path below : String) (more more' : List Expr)
    (reported : (Expr.call "changed" (.literal (.string (path ++ "." ++ below)) :: more)).eval change =
      .ok (.bool true)) :
    (Expr.call "changed" (.literal (.string path) :: more')).eval change = .ok (.bool true) := by
  rw [Expr.eval_changed] at reported ⊢
  cases same : change.changed path with
  | true => rfl
  | false =>
    rw [Change.changed_below_eq_false same below] at reported
    cases reported

/-- An entry that is null now and was absent, in the only item of an array. The other entry, a decimal that
became its number, has not changed. -/
theorem changed_of_changed_below_item :
    let price : Value := .decimal ⟨"1.50", by decide⟩
    let change : Change := ⟨some [("fees", .array [.map [("sum", price)]])],
      [("fees", .array [.map [("paid", .null), ("sum", .number (.ofBits 0x3FF8000000000000))]])]⟩
    let changed (path : String) : Expr := .call "changed" [.literal (.string path)]
    (changed "fees.0.paid").eval change = .ok (.bool true) ∧ (changed "fees.0").eval change = .ok (.bool true) ∧
      (changed "fees.0.sum").eval change = .ok (.bool false) := by
  intro price change changed
  have reported : change.changed ("fees.0" ++ "." ++ "paid") = true := by decide +kernel
  have same : change.changed "fees.0.sum" = false := by decide +kernel
  have below := (Expr.eval_changed change ("fees.0" ++ "." ++ "paid") []).trans (by rw [reported])
  exact ⟨below, changed_of_changed_below change "fees.0" "paid" [] [] below,
    (Expr.eval_changed change "fees.0.sum" []).trans (by rw [same])⟩

end RecordRules
