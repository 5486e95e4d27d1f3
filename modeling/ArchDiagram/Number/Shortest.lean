import ArchDiagram.Number.Decimal

/-! The fewest decimal digits that read back to a double, and the layouts they are written in. -/
namespace ArchDiagram

/-- Which of two decimals equally near to a number is taken. -/
inductive Tie where
  | even
  | up
deriving DecidableEq, Repr

namespace Binary64

/-- Whether `coefficient · 10 ^ exponent`, under the sign of `x`, reads back to `x`. -/
def readsBack (x : Binary64) (coefficient : Nat) (exponent : Int) : Bool :=
  ofDecimal? x.negative coefficient exponent = some x

/-- The neighbour of `x` among the multiples of `10 ^ exponent` that reads back, the nearer of two. -/
def onGrid? (tie : Tie) (x : Binary64) (exponent : Int) : Option Nat :=
  let num := x.significand * power 2 x.exponent * power 10 (-exponent)
  let den := power 2 (-x.exponent) * power 10 exponent
  let low := num / den
  let twice := 2 * (num % den)
  let preferLow := twice < den || (twice == den && tie == .even && low % 2 == 0)
  match readsBack x low exponent, readsBack x (low + 1) exponent with
  | true, true => some (if preferLow then low else low + 1)
  | true, false => some low
  | false, true => some (low + 1)
  | false, false => none

/-- The coarsest of `count` grids, from `10 ^ top` down, on which a neighbour of `x` reads back. -/
def coarsest? (tie : Tie) (x : Binary64) (top : Int) : Nat → Option (Nat × Int)
  | 0 => none
  | count + 1 =>
    match onGrid? tie x top with
    | some c => some (c, top)
    | none => coarsest? tie x (top - 1) count

/-- The decimal equal to the magnitude of `x`. -/
def exactDecimal (x : Binary64) : Nat × Int :=
  if 0 ≤ x.exponent then (x.significand * power 2 x.exponent, 0)
  else (x.significand * power 5 (-x.exponent), x.exponent)

/-- An exponent of ten above the magnitude of `x`: a bit is worth less than `0.30103` digits. -/
def topExponent (x : Binary64) : Int :=
  ((x.significand.log2 + x.exponent + 1) * 30103).fdiv 100000 + 1

/-- The coefficient and exponent of the shortest decimal that reads back. -/
def shortest (tie : Tie) (x : Binary64) : Nat × Int :=
  if x.isZero then (0, 0)
  else (coarsest? tie x x.topExponent 20).getD x.exactDecimal

end Binary64

/-- How a number is laid out. -/
structure NumberLayout where
  tie : Tie
  /-- The decimal exponents that are written without a power of ten; `none` for all of them. -/
  positional : Option (Int × Int)
  /-- Whether a whole number keeps a zero after its point. -/
  pointZero : Bool

namespace NumberLayout

def isPositional (f : NumberLayout) (e : Int) : Bool :=
  match f.positional with
  | none => true
  | some (low, high) => low ≤ e && e ≤ high

/-- The digits times `10 ^ exponent`, with zeros filled in on either side of the point. -/
def placePoint (pointZero : Bool) (digits : List Char) (exponent : Int) : List Char :=
  if 0 ≤ exponent then
    digits ++ List.replicate exponent.toNat '0' ++ if pointZero then ['.', '0'] else []
  else
    let places := (-exponent).toNat
    if places < digits.length then
      digits.take (digits.length - places) ++ '.' :: digits.drop (digits.length - places)
    else '0' :: '.' :: List.replicate (places - digits.length) '0' ++ digits

/-- One digit, a point if more follow, and a signed power of ten. -/
def scientific (digits : List Char) (e : Int) : List Char :=
  let mantissa := match digits with
    | d :: d' :: ds => d :: '.' :: d' :: ds
    | ds => ds
  mantissa ++ 'e' :: (if e < 0 then '-' else '+') :: Nat.toDigits 10 e.natAbs

def write (f : NumberLayout) (x : Binary64) : String :=
  let (coefficient, exponent) := x.shortest f.tie
  let digits := Nat.toDigits 10 coefficient
  let e := exponent + digits.length - 1
  let body :=
    if f.isPositional e then placePoint f.pointZero digits exponent else scientific digits e
  String.ofList (if x.negative then '-' :: body else body)

end NumberLayout

end ArchDiagram
