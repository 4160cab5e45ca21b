/-
# Numbers in decimal notation

A numeral is an optional sign, digits with at most one point among or around
them, and an optional power of ten: `42`, `-3.50`, `.5`, `5.`, `1e-7`. It
stands for a sign, a coefficient and an exponent of ten, and reads as the
binary64 number nearest to that value. The words `inf`, `infinity` and `nan`
are numbers too, in any case and behind any sign.

Key definitions: `Numeral`, `Numeral.read?`, `Binary64.read?`.
-/
import RecordRules.Binary64.Rounding
import RecordRules.Text.Digits

namespace RecordRules

/-- A number as it is written: `±coefficient · 10^exponent`. -/
structure Numeral where
  negative : Bool
  coefficient : Nat
  exponent : Int
deriving DecidableEq

namespace Numeral

/-- Whether a minus sign stands first, and the text behind the sign if there is one. -/
def splitSign : List Char → Bool × List Char
  | '-' :: cs => (true, cs)
  | '+' :: cs => (false, cs)
  | cs => (false, cs)

/-- The leading digits, and the text from the first other character on. -/
def splitDigits (cs : List Char) : List Char × List Char :=
  (cs.takeWhile Char.isDigit, cs.dropWhile Char.isDigit)

/-- The digits behind a point, if one stands first, and the text behind them. -/
def splitFraction : List Char → List Char × List Char
  | '.' :: cs => splitDigits cs
  | cs => ([], cs)

/-- The power of ten that ends a numeral: nothing, or `e`, a sign if wanted, and digits. -/
def readExponent? : List Char → Option Int
  | [] => some 0
  | mark :: cs =>
    if mark = 'e' ∨ mark = 'E' then
      let (negative, digits) := splitSign cs
      (Text.natural? digits).map fun n => if negative then -(n : Int) else n
    else
      none

/-- Reads a whole text as a numeral. -/
def read? (cs : List Char) : Option Numeral :=
  let (negative, unsigned) := splitSign cs
  let (whole, afterWhole) := splitDigits unsigned
  let (fraction, power) := splitFraction afterWhole
  if whole.isEmpty && fraction.isEmpty then
    none
  else
    (readExponent? power).map fun exponent =>
      ⟨negative, Nat.ofDigitChars 10 (whole ++ fraction) 0, exponent - fraction.length⟩

/-- The nearest binary64 number. -/
def toBinary64 (n : Numeral) : Binary64 := .ofScaled n.negative n.coefficient n.exponent

end Numeral

namespace Binary64

/-- The number that a word names, whatever its case. -/
def readWord? (cs : List Char) : Option Binary64 :=
  let (negative, word) := Numeral.splitSign cs
  match String.ofList (word.map Char.toLower) with
  | "inf" | "infinity" => some (infinity negative)
  | "nan" => some nan
  | _ => none

/-- Reads a whole text as a number: a numeral or one of the words. -/
def read? (cs : List Char) : Option Binary64 :=
  match Numeral.read? cs with
  | some n => some n.toBinary64
  | none => readWord? cs

end Binary64
end RecordRules
