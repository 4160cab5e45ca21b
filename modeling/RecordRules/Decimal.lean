/-
# Decimal texts

Amounts that keep the digits they were given: an optional minus sign, digits,
and if there is a point, digits behind it. Whoever computes with a decimal sees
the nearest binary64 number; the text itself is never rounded.

Key definitions: `Decimal`, `Decimal.ofString?`, `Decimal.toBinary64`.
-/
import RecordRules.Binary64.Numeral

namespace RecordRules

/-- One or more digits. -/
def Decimal.areDigits (cs : List Char) : Bool := !cs.isEmpty && cs.all Char.isDigit

/-- The text is a decimal without its sign. -/
def Decimal.isUnsigned (cs : List Char) : Bool :=
  match Numeral.splitDigits cs with
  | (whole, []) => areDigits whole
  | (whole, '.' :: fraction) => areDigits whole && areDigits fraction
  | _ => false

/-- The text is a decimal. -/
def Decimal.isDecimal (cs : List Char) : Bool :=
  match cs with
  | '-' :: unsigned => isUnsigned unsigned
  | _ => isUnsigned cs

/-- A text that is a decimal. -/
structure Decimal where
  text : String
  wellFormed : Decimal.isDecimal text.toList = true
deriving DecidableEq

namespace Decimal

/-- The text as a decimal, if it is one. -/
def ofString? (text : String) : Option Decimal :=
  if h : Decimal.isDecimal text.toList then some ⟨text, h⟩ else none

/-- The wording of the refusal of a text that is no decimal. -/
def refusal (text : String) : String := s!"Invalid decimal literal: {text}"

/-- The nearest binary64 number. -/
def toBinary64 (d : Decimal) : Binary64 := (Binary64.read? d.text.toList).getD .nan

theorem ofString?_text (d : Decimal) : ofString? d.text = some d := by
  simp [ofString?, d.wellFormed]

end Decimal
end RecordRules
