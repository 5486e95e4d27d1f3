import ArchDiagram.Number.Binary64

/-! Decimal numerals: an optional sign, digits with an optional point, an optional exponent. -/
namespace ArchDiagram

/-- The number `± coefficient · 10 ^ exponent`. -/
structure Decimal where
  negative : Bool
  coefficient : Nat
  exponent : Int
deriving DecidableEq, Repr

namespace Decimal

/-- The ASCII digits. -/
def isDigit (c : Char) : Bool :=
  '0' ≤ c && c ≤ '9'

/-- The natural number that a list of digits spells. -/
def ofDigits (ds : List Char) : Nat :=
  ds.foldl (fun n d => 10 * n + (d.toNat - '0'.toNat)) 0

/-- Splits a sign off; `true` stands for a minus. -/
def sign : List Char → Bool × List Char
  | '-' :: cs => (true, cs)
  | '+' :: cs => (false, cs)
  | cs => (false, cs)

/-- Reads `e` and a signed number up to the end; the empty text is the exponent zero. -/
def readExponent? : List Char → Option Int
  | [] => some 0
  | c :: cs =>
    let (negative, ds) := sign cs
    if (c == 'e' || c == 'E') && !ds.isEmpty && ds.all isDigit then
      some (if negative then -(ofDigits ds : Int) else ofDigits ds)
    else none

/-- Splits a point and the digits after it off. -/
def fraction : List Char → List Char × List Char
  | '.' :: cs => (cs.takeWhile isDigit, cs.dropWhile isDigit)
  | cs => ([], cs)

/-- Reads a numeral that has at least one digit before its exponent. -/
def read? (text : List Char) : Option Decimal :=
  let (negative, body) := sign text
  let whole := body.takeWhile isDigit
  let (part, rest) := fraction (body.dropWhile isDigit)
  if (whole ++ part).isEmpty then none
  else (readExponent? rest).map fun e =>
    ⟨negative, ofDigits (whole ++ part), e - part.length⟩

def toBinary64? (d : Decimal) : Option Binary64 :=
  Binary64.ofDecimal? d.negative d.coefficient d.exponent

end Decimal

/-- The finite double that a numeral names; words such as `inf` name none. -/
def Binary64.read? (text : String) : Option Binary64 :=
  (Decimal.read? text.toList).bind Decimal.toBinary64?

end ArchDiagram
