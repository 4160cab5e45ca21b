/-
# Texts cut at a separator

A text is cut at every occurrence of a character into the pieces between them.
There is always a first piece; pieces may be empty. Nothing is lost
(`cut_joined`) and the separator stands in none of them (`not_mem_cut`).

Key definition: `cut`.
-/

namespace RecordRules.Text

/-- The text up to the first separator, and the texts between and behind the separators. -/
def cut (separator : Char) : List Char → List Char × List (List Char)
  | [] => ([], [])
  | c :: cs =>
    let (first, rest) := cut separator cs
    if c = separator then ([], first :: rest) else (c :: first, rest)

/-- The pieces with the separator before each but the first are the text. -/
theorem cut_joined (separator : Char) (cs : List Char) :
    (cut separator cs).1 ++ (cut separator cs).2.flatMap (separator :: ·) = cs := by
  induction cs with
  | nil => rfl
  | cons c cs ih => by_cases h : c = separator <;> simp_all [cut]

theorem not_mem_cut (separator : Char) (cs : List Char) :
    separator ∉ (cut separator cs).1 ∧ ∀ piece ∈ (cut separator cs).2, separator ∉ piece := by
  induction cs with
  | nil => simp [cut]
  | cons c cs ih => by_cases h : c = separator <;> simp_all [cut, Ne.symm, eq_comm]

end RecordRules.Text
