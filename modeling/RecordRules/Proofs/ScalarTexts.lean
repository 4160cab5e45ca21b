/-
# The text of a scalar is at its place

A text has a place in the order by what it says, and the texts that numbers, decimals and dates
are shown as say what they are. A number is read back from its digits, a decimal is read as any
numeral is, and a date of a year of four digits is read back to the millisecond, which is all
that the order sees of it. A date is never mistaken for a number, for the `T` between date and
time is in no numeral. None of these texts has blanks, so trimming leaves them as they are.

The sign of a zero is lost in its text, but the two zeros are at one place. So a text has the
same place as the scalar (`Value.comparable?_text`), and a comparison that asks for the order
cannot tell them apart (`Comparison.IsOrdering.answer?_eq`).

Key definitions: `SamePlace`, `Value.Legible`, `Comparison.IsOrdering`. Key theorems:
`Binary64.numericText?_plain`, `Instant.dateText?_text`, `Value.comparable?_text`,
`Comparison.IsOrdering.answer?_eq`.
-/
import RecordRules.Proofs.Canonical
import RecordRules.Proofs.Ordering

namespace RecordRules

/-! ### Texts without blanks -/

namespace Text

variable {cs : List Char}

theorem trimStart_eq_self (h : cs.any isBlank = false) : trimStart cs = cs := by
  cases cs with
  | nil => rfl
  | cons c cs =>
    have first : isBlank c = false := (Bool.or_eq_false_iff.mp h).1
    rw [trimStart, List.dropWhile_cons, first, if_neg Bool.false_ne_true]

theorem trim_eq_self (h : cs.any isBlank = false) : trim cs = cs := by
  have reversed : cs.reverse.any isBlank = false := List.any_reverse.trans h
  rw [trim, trimStart_eq_self h, trimStart_eq_self reversed, List.reverse_reverse]

theorem any_isBlank_digits (digits : ∀ c ∈ cs, c.isDigit = true) : cs.any isBlank = false :=
  List.any_eq_false.mpr fun c mem => by
    obtain ⟨low, high⟩ := toNat_of_isDigit (digits c mem)
    rw [not_blank (by omega) (by omega)]
    exact Bool.false_ne_true

end Text

/-! ### The texts of numbers and dates -/

namespace Binary64

theorem Unsigned.any_isBlank {cs : List Char} {s : Scaled} (h : Unsigned cs s) : cs.any Text.isBlank = false := by
  cases h with
  | whole _ digits => exact Text.any_isBlank_digits digits
  | point _ digits fraction =>
    have point : Text.isBlank '.' = false := rfl
    rw [List.any_append, List.any_cons, Text.any_isBlank_digits digits, Text.any_isBlank_digits fraction, point]
    rfl

/-- A written number is read alone as it is in a text. -/
theorem Unsigned.numericText? {cs : List Char} {s : Scaled} (h : Unsigned cs s) (negative : Bool) :
    numericText? (signed negative cs) = Binary64.read? (signed negative cs) := by
  have noBlank : (signed negative cs).any Text.isBlank = false := by
    cases negative with
    | false => exact h.any_isBlank
    | true => exact h.any_isBlank
  rw [RecordRules.numericText?, Text.trim_eq_self noBlank, Binary64.read?, h.read? negative]
  rfl

/-- **Numbers come back.** A finite number is read from its plain text, but for the sign of a zero. -/
theorem numericText?_plain {x : Binary64} (finite : x.isFinite = true) : numericText? x.plain = some (reread x) := by
  cases x with
  | nan => cases finite
  | ranked negative rank =>
    obtain ⟨cs, s, digits, written, _⟩ := digits_ranked negative rank
    have inside : rank.val ≠ infinityRank := Nat.ne_of_lt (of_decide_eq_true finite)
    have plain : (ranked negative rank).plain = (ranked negative rank).digits := (if_neg inside).symm
    rw [plain, reread, Parse.State.numberOf, String.toList_ofList, digits, written.numericText?, Binary64.read?,
      written.read?]
    rfl

theorem Alike.refl (x : Binary64) : Alike x x := alike_iff_key.mpr rfl

end Binary64

/-- A decimal is read as it is in a text. -/
theorem Decimal.numericText?_text (d : Decimal) : numericText? d.text.toList = some d.toBinary64 := by
  obtain ⟨negative, digits, s, text, written⟩ := signed_of_isDecimal d.wellFormed
  rw [toBinary64, text, written.numericText?, Binary64.read?, written.read?]
  rfl

namespace Instant

@[simp]
theorem any_isBlank_padded (width n : Nat) : (padded width n).any Text.isBlank = false :=
  Text.any_isBlank_digits (List.all_eq_true.mp (all_isDigit_padded width n))

theorem any_isBlank_yearText (year : Int) : (yearText year).any Text.isBlank = false := by
  unfold yearText
  split
  · exact any_isBlank_padded _ _
  · rw [List.any_cons, any_isBlank_padded, Bool.or_false]
    split <;> rfl

theorem any_isBlank_text (t : Instant) : (t.text .millis).any Text.isBlank = false := by
  have marks : ['-', 'T', ':', '.', 'Z'].any Text.isBlank = false := by decide
  simp only [List.any_cons, List.any_nil, Bool.or_false, Bool.or_eq_false_iff] at marks
  simp [text, dateText, fractionText, any_isBlank_yearText, marks]

/-- A date is no number. -/
theorem numericText?_text (t : Instant) : numericText? (t.text .millis) = none := by
  have letter : 'T' ∈ t.text .millis := by simp [text]
  rw [numericText?, Text.trim_eq_self t.any_isBlank_text, Numeral.read?_of_letter (by decide) letter, Option.map_none]

/-- **Dates come back.** -/
theorem dateText?_text {t : Instant} (year : t.HasFourDigitYear) :
    ∃ u, dateText? (t.text .millis) = some u ∧ u.millis = t.millis := by
  obtain ⟨u, read, same⟩ := readTimestamp?_text_millis year
  refine ⟨u, ?_, same⟩
  rw [dateText?, Text.trim_eq_self t.any_isBlank_text, read, Option.some_or]

end Instant

/-! ### The text of a scalar -/

/-- There is a place on neither side, or the same place on both. -/
abbrev SamePlace : Option Binary64 → Option Binary64 → Prop := Option.Rel Binary64.Alike

theorem SamePlace.refl (place : Option Binary64) : SamePlace place place := by
  cases place with
  | none => exact .none
  | some x => exact .some (.refl x)

namespace Value

/-- The value has a text that tells its place in the order: it is a finite number, a decimal, or a date of a year
of four digits. -/
def Legible : Value → Prop
  | .number x => x.isFinite = true
  | .decimal _ => True
  | .date t => t.HasFourDigitYear
  | _ => False

/-- **The text of a scalar is at its place.** -/
theorem comparable?_text {v : Value} (legible : v.Legible) :
    ∃ x y, (string v.text).comparable? = some x ∧ v.comparable? = some y ∧ x.Alike y := by
  cases v with
  | number x =>
    refine ⟨x.reread, x, ?_, rfl, x.alike_reread⟩
    rw [comparable?, text, String.toList_ofList, Binary64.numericText?_plain legible, Option.some_or]
  | decimal d =>
    refine ⟨d.toBinary64, d.toBinary64, ?_, rfl, .refl _⟩
    rw [comparable?, text, d.numericText?_text, Option.some_or]
  | date t =>
    obtain ⟨u, read, same⟩ := Instant.dateText?_text (show t.HasFourDigitYear from legible)
    refine ⟨millisNumber t, millisNumber t, ?_, rfl, .refl _⟩
    rw [comparable?, text, String.toList_ofList, t.numericText?_text, Option.none_or, read, Option.map_some,
      millisNumber, same, millisNumber]
  | _ => exact legible.elim

theorem samePlace_text {v : Value} (legible : v.Legible) : SamePlace (string v.text).comparable? v.comparable? := by
  obtain ⟨x, y, left, right, alike⟩ := comparable?_text legible
  rw [left, right]
  exact .some alike

end Value

/-! ### Orders -/

namespace Comparison

/-- The comparison asks how its sides stand in the order. -/
def IsOrdering : Comparison → Prop
  | greater | greaterOrEqual | less | lessOrEqual => True
  | _ => False

/-- An order is a relation of the places of the sides, which does not tell the two zeros apart. -/
theorem IsOrdering.exists_relation {op : Comparison} (ordering : op.IsOrdering) :
    ∃ rel : Binary64 → Binary64 → Bool, (∀ x x' y y', x.Alike x' → y.Alike y' → rel x y = rel x' y') ∧
      ∀ v w, op.answer? v w = Option.map₂ rel v.comparable? w.comparable? := by
  cases op with
  | greater => exact ⟨fun x y => y.lt x, fun _ _ _ _ hx hy => hy.related_eq hx _, fun _ _ => rfl⟩
  | greaterOrEqual => exact ⟨fun x y => y.le x, fun _ _ _ _ hx hy => hy.related_eq hx _, fun _ _ => rfl⟩
  | less => exact ⟨Binary64.lt, fun _ _ _ _ hx hy => hx.related_eq hy _, fun _ _ => rfl⟩
  | lessOrEqual => exact ⟨Binary64.le, fun _ _ _ _ hx hy => hx.related_eq hy _, fun _ _ => rfl⟩
  | _ => exact ordering.elim

theorem map₂_samePlace {rel : Binary64 → Binary64 → Bool} {a a' b b' : Option Binary64}
    (places : ∀ x x' y y', x.Alike x' → y.Alike y' → rel x y = rel x' y') (left : SamePlace a a')
    (right : SamePlace b b') : Option.map₂ rel a b = Option.map₂ rel a' b' := by
  cases left with
  | none => rfl
  | some hx =>
    cases right with
    | none => rfl
    | some hy => exact congrArg some (places _ _ _ _ hx hy)

/-- **Places decide.** -/
theorem IsOrdering.answer?_eq {op : Comparison} (ordering : op.IsOrdering) {v v' w w' : Value}
    (left : SamePlace v.comparable? v'.comparable?) (right : SamePlace w.comparable? w'.comparable?) :
    op.answer? v w = op.answer? v' w' := by
  obtain ⟨rel, places, answer⟩ := ordering.exists_relation
  rw [answer, answer, map₂_samePlace places left right]

end Comparison

end RecordRules
