/-
# Blank characters

White space as the Unicode property `White_Space` has it: the characters a
scanner skips between lexemes and a text is trimmed of. `Char.isWhitespace`
knows four of them, all of which are blank here (`isBlank_of_isWhitespace`).

Key definitions: `isBlank`, `trim`. A text is `allBlank` exactly when
trimming it leaves nothing.
-/

namespace RecordRules.Text

/-- The code points with the property, as closed ranges in ascending order. -/
def blankRanges : List (Nat × Nat) :=
  [(0x0009, 0x000D), (0x0020, 0x0020), (0x0085, 0x0085), (0x00A0, 0x00A0), (0x1680, 0x1680),
   (0x2000, 0x200A), (0x2028, 0x2029), (0x202F, 0x202F), (0x205F, 0x205F), (0x3000, 0x3000)]

/-- The character lies in one of the ranges. -/
def isBlank (c : Char) : Bool :=
  blankRanges.any fun range => range.1 ≤ c.toNat && c.toNat ≤ range.2

/-- Every character is blank; the empty text is. -/
def allBlank (cs : List Char) : Bool := cs.all isBlank

/-- The text without the blanks at its start. -/
def trimStart (cs : List Char) : List Char := cs.dropWhile isBlank

/-- The text without the blanks at either end. -/
def trim (cs : List Char) : List Char := (trimStart (trimStart cs).reverse).reverse

theorem isBlank_of_isWhitespace {c : Char} (h : c.isWhitespace = true) : isBlank c = true := by
  simp only [Char.isWhitespace, Bool.or_eq_true, decide_eq_true_eq] at h
  rcases h with ((rfl | rfl) | rfl) | rfl <;> decide

theorem trimStart_eq_nil_iff {cs : List Char} : trimStart cs = [] ↔ allBlank cs = true := by
  induction cs with
  | nil => simp [trimStart, allBlank]
  | cons c cs ih =>
    simp only [trimStart, allBlank, List.dropWhile_cons, List.all_cons, Bool.and_eq_true] at ih ⊢
    split <;> simp_all

theorem trim_eq_nil_iff {cs : List Char} : trim cs = [] ↔ allBlank cs = true := by
  rw [← trimStart_eq_nil_iff]
  constructor
  · intro h
    simp only [trim, List.reverse_eq_nil_iff, trimStart_eq_nil_iff, allBlank, List.all_reverse] at h
    -- what is left of the blanks at the start begins with no blank
    cases hs : trimStart cs with
    | nil => rfl
    | cons c rest =>
      rw [hs, List.all_cons, Bool.and_eq_true] at h
      have := List.head?_dropWhile_not isBlank cs
      simp_all [trimStart]
  · intro h
    rw [trim, h]
    rfl

end RecordRules.Text
