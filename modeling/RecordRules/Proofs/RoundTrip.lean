/-
# The canonical text reads back

Reading gives well-formed expressions: all names in them are names. The canonical text of
any well-formed expression is read again, as an expression that is alike: the same tree
with the same names and texts, and with numbers that are equal, or NaN on both sides. A
negative zero comes back as zero, which equals it. The names of the formula are those of
the expression, and printing once more changes nothing.

Three steps lead there. The canonical text is scanned as the lexemes that were printed
(`scan_canonical`), these derive the expression as it comes back (`binds_lexemes`), and
the machine reads what the grammar derives (`Formula.parse_eq_ok_iff`).

Key definition: `Expr.Alike`. Key theorems: `parse_text`, `text_roundTrip`.
-/
import Mathlib
import RecordRules.Proofs.Printing

namespace RecordRules

/-! ### Alike expressions -/

/-- Equal literals, or numbers that are alike. -/
def Literal.Alike : Literal → Literal → Prop
  | .number x, .number y => x.Alike y
  | a, b => a = b

theorem Literal.alike_reread (value : Literal) : value.reread.Alike value := by
  cases value with
  | number x => exact x.alike_reread
  | _ => rfl

namespace Expr

mutual

/-- The same tree, with literals that are alike. -/
def Alike : Expr → Expr → Prop
  | .literal a, .literal b => a.Alike b
  | .field p, .field q => p = q
  | .connect op l r, .connect op' l' r' => op = op' ∧ l.Alike l' ∧ r.Alike r'
  | .compare op l r, .compare op' l' r' => op = op' ∧ l.Alike l' ∧ r.Alike r'
  | .call f args, .call g args' => f = g ∧ AlikeList args args'
  | .array xs, .array ys => AlikeList xs ys
  | _, _ => False

def AlikeList : List Expr → List Expr → Prop
  | [], [] => True
  | x :: xs, y :: ys => x.Alike y ∧ AlikeList xs ys
  | _, _ => False

end

mutual

theorem alike_reread : ∀ e : Expr, e.reread.Alike e
  | .literal value => value.alike_reread
  | .field _ => rfl
  | .connect _ left right => ⟨rfl, alike_reread left, alike_reread right⟩
  | .compare _ left right => ⟨rfl, alike_reread left, alike_reread right⟩
  | .call _ args => ⟨rfl, alike_rereadList args⟩
  | .array items => alike_rereadList items

theorem alike_rereadList : ∀ es : List Expr, AlikeList (rereadList es) es
  | [] => trivial
  | e :: rest => ⟨alike_reread e, alike_rereadList rest⟩

end

end Expr

/-! ### Reading and printing -/

open Parse

theorem kinds_eq_takeWhile (tokens : List Token) :
    kinds tokens = (tokens.map Token.lexeme).takeWhile fun l => l ≠ .finish := by
  rw [List.takeWhile_map]
  rfl

/-- The lexemes of an expression end where `finish` stands. -/
theorem kinds_eq {tokens : List Token} {ls : List Lexeme} (h : tokens.map Token.lexeme = ls ++ [.finish])
    (inside : ∀ l ∈ ls, l ≠ .finish) : kinds tokens = ls := by
  have all : ∀ l ∈ ls, decide (l ≠ .finish) = true := fun l mem => decide_eq_true (inside l mem)
  rw [kinds_eq_takeWhile, h, List.takeWhile_append_of_pos all]
  exact List.append_nil ls

theorem mem_of_mem_kinds {tokens : List Token} {l : Lexeme} (h : l ∈ kinds tokens) :
    l ∈ tokens.map Token.lexeme := by
  rw [kinds_eq_takeWhile] at h
  exact (List.takeWhile_sublist _).subset h

/-- **What is read is well-formed.** -/
theorem wellFormed_of_parse {source : String} {formula : Formula} (h : Formula.parse source = .ok formula) :
    formula.expr.WellFormed := by
  obtain ⟨tokens, scanned, derives, _⟩ := Formula.parse_eq_ok_iff.mp h
  have names : ∀ name, .name name ∈ kinds tokens → IsName name :=
    fun name mem => isName_of_scan scanned (mem_of_mem_kinds mem)
  exact derives.wellFormed names _ (List.mem_singleton_self _)

/-- The canonical text of a well-formed expression is scanned as the lexemes that are printed. -/
theorem scan_text {e : Expr} (well : e.WellFormed) :
    ∃ tokens, Token.scan e.text = .ok tokens ∧ kinds tokens = e.lexemes := by
  have derives : Derives e.lexemes (.expression e.reread) := (binds_lexemes e).1 .expression e.rank_pos
  have spelled : ∀ l ∈ e.lexemes, l.Spelled := spelled_lexemes e well
  obtain ⟨tokens, scanned, lexemes⟩ := scan_canonical spelled derives.apart
  have inside : ∀ l ∈ e.lexemes, l ≠ .finish := by
    rintro _ mem rfl
    exact spelled _ mem
  exact ⟨tokens, scanned, kinds_eq lexemes inside⟩

/-- **What is printed is read.** The canonical text of a well-formed expression is read as the expression,
with its numbers as they come back from their digits. -/
theorem parse_text {e : Expr} (well : e.WellFormed) :
    Formula.parse e.text = .ok ⟨e.reread, e.gather .none⟩ := by
  obtain ⟨tokens, scanned, lexemes⟩ := scan_text well
  refine Formula.parse_eq_ok_iff.mpr ⟨tokens, scanned, ?_, (e.gather_mapNumbers Binary64.reread .none).symm⟩
  rw [lexemes]
  exact (binds_lexemes e).1 .expression e.rank_pos

/-- **Round trip.** Whatever is read is well-formed. The canonical text of a well-formed expression is
read, as an expression alike; its names are the fields that the expression mentions and the functions
that it calls, and its canonical text is the same. -/
theorem text_roundTrip :
    (∀ source formula, Formula.parse source = .ok formula → formula.expr.WellFormed) ∧
      ∀ e : Expr, e.WellFormed → ∃ formula, Formula.parse e.text = .ok formula ∧ formula.expr.Alike e ∧
        (∀ path, path ∈ formula.names.fields ↔ e.Mentions path) ∧
        (∀ function, function ∈ formula.names.functions ↔ e.Calls function) ∧
        formula.expr.text = e.text := by
  refine ⟨fun source formula => wellFormed_of_parse, fun e well => ?_⟩
  refine ⟨_, parse_text well, e.alike_reread, fun path => ?_, fun function => ?_, e.text_reread⟩
  · rw [Expr.mem_gather_fields]
    simp only [Names.none, NameSet.not_mem_empty, false_or]
  · rw [Expr.mem_gather_functions]
    simp only [Names.none, NameSet.not_mem_empty, false_or]

/-- Names like keywords, a quote and a backslash in a text, a right side of the same rank, and a negative
zero, which comes back as zero. -/
theorem text_roundTrip_quoted :
    let e : Expr := .connect .or (.field "or_")
      (.connect .or (.compare .memberOf (.literal (.string "it's \\")) (.call "in_" []))
        (.literal (.number (.ofRank true 0))))
    e.WellFormed ∧ e.text = "or_ or ('it\\'s \\\\' in in_() or 0)" ∧
      ∃ formula, Formula.parse e.text = .ok formula ∧ formula.expr.WellFormed ∧ formula.expr.Alike e ∧
        formula.expr.text = e.text := by
  intro e
  have field : IsName "or_" := ⟨⟨'o', ['r', '_'], rfl, .inl rfl, by simp⟩, by decide⟩
  have function : IsName "in_" := ⟨⟨'i', ['n', '_'], rfl, .inl rfl, by simp⟩, by decide⟩
  have well : e.WellFormed := by simp [e, Expr.WellFormed, Expr.HasName, field, function]
  have printed : e.text = "or_ or ('it\\'s \\\\' in in_() or 0)" := by
    simp only [e, Expr.text, Expr.lexemes, Expr.lexemesBefore, Literal.lexeme, Binary64.digits_zero]
    cbv
  obtain ⟨formula, parsed, alike, _, _, text⟩ := text_roundTrip.2 e well
  exact ⟨well, printed, formula, parsed, text_roundTrip.1 _ _ parsed, alike, text⟩

end RecordRules
