/-
# What equality in an expression is

Equal values are those of one form. The form of a value (`Value.form`) forgets what equality
does not look at: of a number, be it a decimal or not, it keeps the place on the line, and
of a date the millisecond; arrays and maps keep the forms of what they hold. NaN has no
place, so a value with NaN in it, however deep, has no form. Two values are equal exactly if
they have a form and it is the same one (`deepEqual_iff_form`). So equality is symmetric and
transitive, and a value equals itself exactly if no number in it is NaN.

Maps hold their entries in ascending order and are compared entry by entry. That is the same
as to ask for as many entries on both sides and for each entry of the one side an equal one
of that name on the other (`deepEqual_map_iff`): as many entries leave no room for a name
that the first side lacks.

Key definitions: `Value.Form`, `Value.form`, `Value.Within`. Key theorems:
`deepEqual_iff_form`, `form_eq_none_iff`, `deepEqual_map_iff`, `deepEqual_partialEquivalence`.
-/
import RecordRules.Proofs.Entries
import RecordRules.Proofs.ReadBack
import RecordRules.Value.Equality

namespace RecordRules

/-! ### Decimals are numbers -/

namespace Decimal

open Binary64 (Unsigned signed)

theorem areDigits_iff {cs : List Char} : areDigits cs = true ↔ cs ≠ [] ∧ ∀ c ∈ cs, c.isDigit = true := by
  simp [areDigits]

/-- Behind the sign, the text is cut at the point if it has one, and there are digits on either side. -/
theorem isUnsigned_iff {cs : List Char} : isUnsigned cs = true ↔ areDigits cs = true ∨
    ∃ whole fraction, areDigits whole = true ∧ areDigits fraction = true ∧ cs = whole ++ '.' :: fraction := by
  have parts : cs.takeWhile Char.isDigit ++ cs.dropWhile Char.isDigit = cs := List.takeWhile_append_dropWhile
  constructor
  · intro h
    unfold isUnsigned Numeral.splitDigits at h
    split at h
    · rename_i whole hs
      obtain ⟨rfl, rest⟩ := Prod.mk.inj hs
      rw [rest, List.append_nil] at parts
      exact .inl (parts ▸ h)
    · rename_i whole fraction hs
      obtain ⟨rfl, rest⟩ := Prod.mk.inj hs
      obtain ⟨front, behind⟩ := Bool.and_eq_true_iff.mp h
      rw [rest] at parts
      exact .inr ⟨_, fraction, front, behind, parts.symm⟩
    · cases h
  · rintro (digits | ⟨whole, fraction, front, behind, rfl⟩)
    · have cut : Numeral.splitDigits (cs ++ []) = (cs, []) :=
        Binary64.splitDigits_append (areDigits_iff.mp digits).2 nofun
      rw [List.append_nil] at cut
      rw [isUnsigned, cut]
      exact digits
    · have cut : Numeral.splitDigits (whole ++ '.' :: fraction) = (whole, '.' :: fraction) :=
        Binary64.splitDigits_append (areDigits_iff.mp front).2 (by rintro _ ⟨⟩; rfl)
      rw [isUnsigned, cut]
      exact Bool.and_eq_true_iff.mpr ⟨front, behind⟩

/-- A decimal text is a written number, with a minus sign or without. -/
theorem unsigned_of_isUnsigned {cs : List Char} (h : isUnsigned cs = true) : ∃ s, Unsigned cs s := by
  rcases isUnsigned_iff.mp h with digits | ⟨whole, fraction, front, behind, rfl⟩
  · obtain ⟨nonempty, digits⟩ := areDigits_iff.mp digits
    exact ⟨_, .whole nonempty digits⟩
  · obtain ⟨nonempty, digits⟩ := areDigits_iff.mp front
    exact ⟨_, .point nonempty digits (areDigits_iff.mp behind).2⟩

theorem signed_of_isDecimal {cs : List Char} (h : isDecimal cs = true) :
    ∃ negative digits s, cs = signed negative digits ∧ Unsigned digits s := by
  unfold isDecimal at h
  split at h
  · obtain ⟨s, written⟩ := unsigned_of_isUnsigned h
    exact ⟨true, _, s, rfl, written⟩
  · obtain ⟨s, written⟩ := unsigned_of_isUnsigned h
    exact ⟨false, _, s, rfl, written⟩

/-- **A decimal is a number.** What it reads as is never NaN. -/
theorem toBinary64_ne_nan (d : Decimal) : d.toBinary64 ≠ .nan := by
  obtain ⟨negative, digits, s, text, written⟩ := signed_of_isDecimal d.wellFormed
  have read := written.read? negative
  rw [toBinary64, Binary64.read?, text, read]
  rintro ⟨⟩

end Decimal

namespace Value

/-! ### Forms -/

/-- What equality looks at. -/
inductive Form where
  | null
  | bool (b : Bool)
  | number (place : Int)
  | string (s : String)
  | date (millis : Int)
  | array (items : List Form)
  | map (entries : List (String × Form))

mutual

/-- The form of a value; there is none with NaN in it. -/
def form : Value → Option Form
  | .null => some .null
  | .bool b => some (.bool b)
  | .number x => x.key.map .number
  | .decimal d => d.toBinary64.key.map .number
  | .string s => some (.string s)
  | .date t => some (.date t.millis)
  | .array items => (formItems items).map .array
  | .map entries => (formEntries entries).map .map

def formItems : List Value → Option (List Form)
  | [] => some []
  | item :: rest => Option.map₂ List.cons (form item) (formItems rest)

def formEntries : List (String × Value) → Option (List (String × Form))
  | [] => some []
  | (name, value) :: rest => Option.map₂ List.cons ((form value).map (Prod.mk name)) (formEntries rest)

end

/-- There is a form on both sides, and it is the same. -/
def SameForm {α : Type} (f g : Option α) : Prop := ∃ form, f = some form ∧ g = some form

section
variable {α β : Type}

theorem SameForm.symm {f g : Option α} : SameForm f g → SameForm g f
  | ⟨form, hf, hg⟩ => ⟨form, hg, hf⟩

theorem SameForm.trans {f g h : Option α} : SameForm f g → SameForm g h → SameForm f h
  | ⟨form, hf, hg⟩, ⟨form', hg', hh⟩ => ⟨form, hf, by rwa [Option.some.inj (hg.symm.trans hg')]⟩

theorem sameForm_self_iff {f : Option α} : SameForm f f ↔ f ≠ none := by
  rw [Option.ne_none_iff_exists']
  exact ⟨fun ⟨form, hf, _⟩ => ⟨form, hf⟩, fun ⟨form, hf⟩ => ⟨form, hf, hf⟩⟩

@[simp]
theorem sameForm_some {x y : α} : SameForm (some x) (some y) ↔ x = y := by
  constructor
  · rintro ⟨form, hx, hy⟩
    exact Option.some.inj (hx.trans hy.symm)
  · rintro rfl
    exact ⟨x, rfl, rfl⟩

theorem sameForm_map {k : α → β} (inj : Function.Injective k) {f g : Option α} :
    SameForm (f.map k) (g.map k) ↔ SameForm f g := by
  cases f <;> cases g <;> simp [SameForm, inj.eq_iff]

theorem sameForm_cons {f g : Option α} {fs gs : Option (List α)} :
    SameForm (Option.map₂ List.cons f fs) (Option.map₂ List.cons g gs) ↔ SameForm f g ∧ SameForm fs gs := by
  cases f <;> cases g <;> cases fs <;> cases gs <;> simp [SameForm]

theorem sameForm_entry {name name' : String} {f g : Option α} :
    SameForm (f.map (Prod.mk name)) (g.map (Prod.mk name')) ↔ name = name' ∧ SameForm f g := by
  cases f <;> cases g <;> simp [SameForm, eq_comm]

end

theorem number_injective : Function.Injective Form.number := fun _ _ => Form.number.inj

theorem array_injective : Function.Injective Form.array := fun _ _ => Form.array.inj

theorem map_injective : Function.Injective Form.map := fun _ _ => Form.map.inj

/-- Equal numbers are at one place. -/
theorem eq_iff_sameForm {x y : Binary64} : x.eq y = true ↔ SameForm x.key y.key := Binary64.eq_iff

mutual

/-- **Equality compares forms.** -/
theorem deepEqual_iff_form : ∀ a b : Value, a.deepEqual b = true ↔ SameForm a.form b.form
  | .null, b => by cases b <;> simp [deepEqual, form, SameForm]
  | .bool x, b => by
    cases b with
    | bool y => rw [deepEqual, beq_iff_eq, form, form, sameForm_some, Form.bool.injEq]
    | _ => simp [deepEqual, form, SameForm]
  | .string x, b => by
    cases b with
    | string y => rw [deepEqual, beq_iff_eq, form, form, sameForm_some, Form.string.injEq]
    | _ => simp [deepEqual, form, SameForm]
  | .date x, b => by
    cases b with
    | date y => rw [deepEqual, beq_iff_eq, form, form, sameForm_some, Form.date.injEq]
    | _ => simp [deepEqual, form, SameForm]
  | .number x, b => by
    cases b with
    | number y => rw [deepEqual, form, form, eq_iff_sameForm, sameForm_map number_injective]
    | decimal e => rw [deepEqual, form, form, eq_iff_sameForm, sameForm_map number_injective]
    | _ => simp [deepEqual, form, SameForm]
  | .decimal d, b => by
    cases b with
    | number y => rw [deepEqual, form, form, eq_iff_sameForm, sameForm_map number_injective]
    | decimal e => rw [deepEqual, form, form, eq_iff_sameForm, sameForm_map number_injective]
    | _ => simp [deepEqual, form, SameForm]
  | .array xs, b => by
    cases b with
    | array ys => rw [deepEqual, deepEqualItems_iff_form xs ys, form, form, sameForm_map array_injective]
    | _ => simp [deepEqual, form, SameForm]
  | .map xs, b => by
    cases b with
    | map ys => rw [deepEqual, deepEqualEntries_iff_form xs ys, form, form, sameForm_map map_injective]
    | _ => simp [deepEqual, form, SameForm]

theorem deepEqualItems_iff_form : ∀ xs ys : List Value,
    deepEqualItems xs ys = true ↔ SameForm (formItems xs) (formItems ys)
  | [], [] => by simp [deepEqualItems, formItems]
  | [], y :: ys => by simp [deepEqualItems, formItems, SameForm]
  | x :: xs, [] => by simp [deepEqualItems, formItems, SameForm]
  | x :: xs, y :: ys => by
    rw [deepEqualItems, Bool.and_eq_true, deepEqual_iff_form x y, deepEqualItems_iff_form xs ys, formItems,
      formItems, sameForm_cons]

theorem deepEqualEntries_iff_form : ∀ xs ys : List (String × Value),
    deepEqualEntries xs ys = true ↔ SameForm (formEntries xs) (formEntries ys)
  | [], [] => by simp [deepEqualEntries, formEntries]
  | [], y :: ys => by simp [deepEqualEntries, formEntries, SameForm]
  | x :: xs, [] => by simp [deepEqualEntries, formEntries, SameForm]
  | (name, x) :: xs, (name', y) :: ys => by
    rw [deepEqualEntries, Bool.and_eq_true, Bool.and_eq_true, beq_iff_eq, deepEqual_iff_form x y,
      deepEqualEntries_iff_form xs ys, formEntries, formEntries, sameForm_cons, sameForm_entry]

end

/-! ### Values with NaN in them -/

/-- The value stands somewhere in the other, or is it. -/
inductive Within (part : Value) : Value → Prop where
  | self : Within part part
  | item {items item} : item ∈ items → Within part item → Within part (.array items)
  | entry {entries name value} : (name, value) ∈ entries → Within part value → Within part (.map entries)

section
variable {part : Value}

theorem within_array_iff {items : List Value} (h : part ≠ .array items) :
    part.Within (.array items) ↔ ∃ item ∈ items, part.Within item := by
  refine ⟨fun within => ?_, fun ⟨_, mem, within⟩ => .item mem within⟩
  cases within with
  | self => exact absurd rfl h
  | item mem within => exact ⟨_, mem, within⟩

theorem within_map_iff {entries : List (String × Value)} (h : part ≠ .map entries) :
    part.Within (.map entries) ↔ ∃ entry ∈ entries, part.Within entry.2 := by
  refine ⟨fun within => ?_, fun ⟨_, mem, within⟩ => .entry mem within⟩
  cases within with
  | self => exact absurd rfl h
  | entry mem within => exact ⟨_, mem, within⟩

variable {p : Value → Prop} {v : Value}

/-- A value without items and entries has no parts but itself. -/
theorem forall_within_scalar_iff (noArray : v.items? = none) (noMap : v.entries? = none) :
    (∀ part : Value, part.Within v → p part) ↔ p v := by
  refine ⟨fun h => h v .self, fun h part within => ?_⟩
  cases within with
  | self => exact h
  | item => cases noArray
  | entry => cases noMap

theorem forall_within_array_iff {items : List Value} : (∀ part : Value, part.Within (.array items) → p part) ↔
    p (.array items) ∧ ∀ item ∈ items, ∀ part : Value, part.Within item → p part := by
  refine ⟨fun h => ⟨h _ .self, fun item mem part within => h part (.item mem within)⟩, fun ⟨self, each⟩ part within => ?_⟩
  cases within with
  | self => exact self
  | item mem within => exact each _ mem part within

theorem forall_within_map_iff {entries : List (String × Value)} :
    (∀ part : Value, part.Within (.map entries) → p part) ↔
      p (.map entries) ∧ ∀ entry ∈ entries, ∀ part : Value, part.Within entry.2 → p part := by
  refine ⟨fun h => ⟨h _ .self, fun entry mem part within => h part (.entry mem within)⟩, fun ⟨self, each⟩ part within => ?_⟩
  cases within with
  | self => exact self
  | entry mem within => exact each _ mem part within

end

theorem map₂_eq_none_iff {α β γ : Type} {f : α → β → γ} {a : Option α} {b : Option β} :
    Option.map₂ f a b = none ↔ a = none ∨ b = none := by
  cases a <;> cases b <;> simp

mutual

/-- **No form with NaN.** A value lacks a form exactly if NaN stands in it. -/
theorem form_eq_none_iff : ∀ a : Value, a.form = none ↔ (number .nan).Within a
  | .null | .bool _ | .string _ | .date _ => by
    refine ⟨nofun, fun within => ?_⟩
    cases within
  | .number x => by
    rw [form, Option.map_eq_none_iff]
    refine ⟨fun h => ?_, fun within => ?_⟩
    · cases x with
      | nan => exact .self
      | ranked => cases h
    · cases within
      rfl
  | .decimal d => by
    rw [form, Option.map_eq_none_iff]
    refine ⟨fun h => ?_, fun within => ?_⟩
    · have read := d.toBinary64_ne_nan
      cases hd : d.toBinary64 with
      | nan => exact absurd hd read
      | ranked => rw [hd] at h; cases h
    · cases within
  | .array items => by
    have kind : number .nan ≠ .array items := nofun
    rw [form, Option.map_eq_none_iff, formItems_eq_none_iff items, within_array_iff kind]
  | .map entries => by
    have kind : number .nan ≠ .map entries := nofun
    rw [form, Option.map_eq_none_iff, formEntries_eq_none_iff entries, within_map_iff kind]

theorem formItems_eq_none_iff : ∀ items : List Value,
    formItems items = none ↔ ∃ item ∈ items, (number .nan).Within item
  | [] => by simp [formItems]
  | item :: rest => by
    rw [formItems, map₂_eq_none_iff, form_eq_none_iff item, formItems_eq_none_iff rest]
    simp only [List.mem_cons, exists_eq_or_imp]

theorem formEntries_eq_none_iff : ∀ entries : List (String × Value),
    formEntries entries = none ↔ ∃ entry ∈ entries, (number .nan).Within entry.2
  | [] => by simp [formEntries]
  | (name, value) :: rest => by
    rw [formEntries, map₂_eq_none_iff, Option.map_eq_none_iff, form_eq_none_iff value,
      formEntries_eq_none_iff rest]
    simp only [List.mem_cons, exists_eq_or_imp]

end

theorem deepEqual_self_iff (a : Value) : a.deepEqual a = true ↔ ¬ (number .nan).Within a := by
  rw [deepEqual_iff_form, sameForm_self_iff, ne_eq, form_eq_none_iff]

/-! ### Maps by name -/

section
variable {xs ys : List (String × Value)}

/-- Entry by entry, the names are the same and the values equal. -/
theorem deepEqualEntries_iff_forall₂ : deepEqualEntries xs ys = true ↔
    List.Forall₂ (fun x y => x.1 = y.1 ∧ x.2.deepEqual y.2 = true) xs ys := by
  induction xs generalizing ys with
  | nil => cases ys <;> simp [deepEqualEntries]
  | cons x xs ih =>
    cases ys with
    | nil => simp [deepEqualEntries]
    | cons y ys => simp [deepEqualEntries, ih]

/-- Lists with the same names agree entry by entry, if values under one name do. -/
theorem forall₂_of_names {R : Value → Value → Prop} (names : xs.map Prod.fst = ys.map Prod.fst)
    (agree : ∀ x ∈ xs, ∀ y ∈ ys, x.1 = y.1 → R x.2 y.2) :
    List.Forall₂ (fun x y => x.1 = y.1 ∧ R x.2 y.2) xs ys := by
  induction xs generalizing ys with
  | nil =>
    cases ys with
    | nil => exact .nil
    | cons => cases names
  | cons x xs ih =>
    cases ys with
    | nil => cases names
    | cons y ys =>
      obtain ⟨first, rest⟩ := List.cons_eq_cons.mp names
      refine .cons ⟨first, agree x List.mem_cons_self y List.mem_cons_self first⟩ (ih rest ?_)
      exact fun x hx y hy => agree x (List.mem_cons_of_mem _ hx) y (List.mem_cons_of_mem _ hy)

/-- **Maps by name.** Two maps are equal exactly if they have as many entries, and each value of the first
equals the one that the second has under its name. -/
theorem deepEqual_map_iff (hx : Keyed.Ascending xs) (hy : Keyed.Ascending ys) :
    (map xs).deepEqual (map ys) = true ↔ xs.length = ys.length ∧
      ∀ x ∈ xs, ∃ y, ys.lookup x.1 = some y ∧ x.2.deepEqual y = true := by
  rw [deepEqual, deepEqualEntries_iff_forall₂]
  constructor
  · intro h
    refine ⟨h.length_eq, fun x mem => ?_⟩
    obtain ⟨i, hi, rfl⟩ := List.getElem_of_mem mem
    have hi' : i < ys.length := h.length_eq ▸ hi
    obtain ⟨name, equal⟩ := h.get hi hi'
    refine ⟨ys[i].2, Keyed.lookup_of_mem hy ?_, equal⟩
    have : xs[i].1 = ys[i].1 := name
    rw [this]
    exact List.getElem_mem hi'
  · rintro ⟨length, found⟩
    have among : ∀ name ∈ xs.map Prod.fst, name ∈ ys.map Prod.fst := by
      intro name mem
      obtain ⟨x, hmem, rfl⟩ := List.mem_map.mp mem
      obtain ⟨y, look, _⟩ := found x hmem
      exact List.mem_map.mpr ⟨_, Keyed.mem_of_lookup look, rfl⟩
    refine forall₂_of_names (R := fun x y => x.deepEqual y = true) (Keyed.names_eq hx hy length among) ?_
    intro x hmem y hmem' name
    obtain ⟨y', look, equal⟩ := found x hmem
    have : ys.lookup x.1 = some y.2 := Keyed.lookup_of_mem hy (by rw [name]; exact hmem')
    rwa [Option.some.inj (look.symm.trans this)] at equal

end

/-- **A partial equivalence.** Equality is symmetric and transitive, and a value equals itself exactly if
NaN stands nowhere in it. Of maps it asks that they have as many entries, and for each value of the first an
equal one under its name in the second. -/
theorem deepEqual_partialEquivalence :
    (∀ a b : Value, a.deepEqual b = b.deepEqual a) ∧
      (∀ a b c : Value, a.deepEqual b = true → b.deepEqual c = true → a.deepEqual c = true) ∧
      (∀ a : Value, a.deepEqual a = true ↔ ¬ (number .nan).Within a) ∧
      ∀ xs ys : List (String × Value), Keyed.Ascending xs → Keyed.Ascending ys →
        ((map xs).deepEqual (map ys) = true ↔ xs.length = ys.length ∧
          ∀ x ∈ xs, ∃ y, ys.lookup x.1 = some y ∧ x.2.deepEqual y = true) := by
  refine ⟨fun a b => ?_, fun a b c hab hbc => ?_, deepEqual_self_iff, fun xs ys => deepEqual_map_iff⟩
  · rw [Bool.eq_iff_iff, deepEqual_iff_form, deepEqual_iff_form]
    exact ⟨.symm, .symm⟩
  · rw [deepEqual_iff_form] at hab hbc ⊢
    exact hab.trans hbc

/-- A number between two decimals of other digits, and dates within one millisecond. -/
theorem deepEqual_partialEquivalence_decimal :
    let entries (paid : Value) (nanos : Nat) (h : nanos < 2 * 10 ^ 9) : List (String × Value) :=
      [("paid", .array [paid, .null]), ("when", .date ⟨0, nanos, h⟩)]
    let xs := entries (.decimal ⟨"1.50", by decide⟩) 1 (by decide)
    let ys := entries (.number (.ofBits 0x3FF8000000000000)) 2 (by decide)
    let zs := entries (.decimal ⟨"1.5", by decide⟩) 999999 (by decide)
    (map xs).deepEqual (map ys) = true ∧ (map ys).deepEqual (map zs) = true ∧
      (map xs).deepEqual (map zs) = true ∧ (map zs).deepEqual (map xs) = true ∧
      ¬ (number .nan).Within (map xs) ∧ Keyed.Ascending xs ∧ Keyed.Ascending zs ∧
      ∃ date, zs.lookup "when" = some date ∧ (Value.date ⟨0, 1, by decide⟩).deepEqual date = true := by
  intro entries xs ys zs
  have ab : (map xs).deepEqual (map ys) = true := by decide +kernel
  have bc : (map ys).deepEqual (map zs) = true := by decide +kernel
  obtain ⟨symmetric, transitive, reflexive, byName⟩ := deepEqual_partialEquivalence
  have ac := transitive _ _ _ ab bc
  have ca : (map zs).deepEqual (map xs) = true := (symmetric _ _).trans ac
  have xs_ascending : Keyed.Ascending xs := by decide
  have zs_ascending : Keyed.Ascending zs := by decide
  refine ⟨ab, bc, ac, ca, (reflexive _).mp (transitive _ _ _ ac ca), xs_ascending, zs_ascending, ?_⟩
  exact ((byName xs zs xs_ascending zs_ascending).mp ac).2 _ (List.mem_cons_of_mem _ List.mem_cons_self)

end Value
end RecordRules
