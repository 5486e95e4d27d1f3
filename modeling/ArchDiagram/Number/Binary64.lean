/-! Finite double-precision numbers, as a sign, a significand and a power of two. -/
namespace ArchDiagram

/-- The power of a number, and one for a negative exponent. -/
def power (base : Nat) (exponent : Int) : Nat :=
  Nat.pow base exponent.toNat

/-- The pairs that stand for a finite double: full significands, or the least exponent. -/
def Canonical (significand : Nat) (exponent : Int) : Prop :=
  significand < power 2 53 ∧ -1074 ≤ exponent ∧ exponent ≤ 971 ∧
    (power 2 52 ≤ significand ∨ exponent = -1074)

instance (m : Nat) (q : Int) : Decidable (Canonical m q) :=
  inferInstanceAs (Decidable (_ ∧ _ ∧ _ ∧ _))

/-- The finite number `± significand · 2 ^ exponent`. -/
structure Binary64 where
  negative : Bool
  significand : Nat
  exponent : Int
  canonical : Canonical significand exponent
deriving DecidableEq

/-- The nearest natural number to `n / d`; a half goes to the even neighbour. -/
def roundHalfEven (n d : Nat) : Nat :=
  let r := n % d
  if d < 2 * r || (2 * r == d && n / d % 2 == 1) then n / d + 1 else n / d

namespace Binary64

def zero (negative : Bool) : Binary64 :=
  ⟨negative, 0, -1074, by decide⟩

instance : Inhabited Binary64 := ⟨zero false⟩

def ofParts? (negative : Bool) (significand : Nat) (exponent : Int) : Option Binary64 :=
  if h : Canonical significand exponent then some ⟨negative, significand, exponent, h⟩ else none

/-- The exponent at which `num / den` has a significand of 53 bits, or the least one. -/
def scale (num den : Nat) : Int :=
  let guess : Int := max ((num.log2 : Int) - den.log2 - 53) (-1074)
  if power 2 53 ≤ num * power 2 (-guess) / (den * power 2 guess) then guess + 1 else guess

/-- The double nearest to `± num / den`, ties to even; `none` when it is too large. -/
def ofRatio? (negative : Bool) (num den : Nat) : Option Binary64 :=
  let q := scale num den
  let m := roundHalfEven (num * power 2 (-q)) (den * power 2 q)
  if m = power 2 53 then ofParts? negative (power 2 52) (q + 1) else ofParts? negative m q

/-- The double nearest to `± coefficient · 10 ^ exponent`. Exponents far out of range are settled
without computing the power. -/
def ofDecimal? (negative : Bool) (coefficient : Nat) (exponent : Int) : Option Binary64 :=
  let size := (Nat.toDigits 10 coefficient).length + exponent
  if coefficient = 0 || size < -330 then some (zero negative)
  else if 310 < size then none
  else ofRatio? negative (coefficient * power 10 exponent) (power 10 (-exponent))

def ofNat (n : Nat) : Binary64 :=
  (ofRatio? false n 1).getD (zero false)

def isZero (x : Binary64) : Bool :=
  x.significand == 0

def isPositive (x : Binary64) : Bool :=
  !x.negative && !x.isZero

/-- Equality as numbers: the two zeros are the same. -/
def equals (x y : Binary64) : Bool :=
  x == y || (x.isZero && y.isZero)

end Binary64

end ArchDiagram
