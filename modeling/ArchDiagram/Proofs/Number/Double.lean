import Mathlib.Algebra.Order.Field.Power
import Mathlib.Tactic.Positivity
import ArchDiagram.Number.Decimal

/-! Doubles that need not be finite. A text can name an infinity or no number at all, and a numeral
can be too large. Each read falls back to the number in front of it where the new one is not finite
or, for a size, not positive, so a number that is finite and positive at first stays so. -/
namespace ArchDiagram

namespace Binary64

/-- The number that the three parts stand for. -/
def toRat (x : Binary64) : ℚ :=
  (if x.negative then -1 else 1) * (x.significand * 2 ^ x.exponent)

lemma abs_toRat (x : Binary64) : |x.toRat| = x.significand * 2 ^ x.exponent := by
  have hnonneg : (0 : ℚ) ≤ x.significand * 2 ^ x.exponent := by positivity
  rw [toRat, abs_mul, abs_of_nonneg hnonneg]
  split <;> simp

lemma abs_toRat_lt (x : Binary64) : |x.toRat| < 2 ^ (1024 : ℤ) := by
  obtain ⟨hbelow, -, hle, -⟩ := x.canonical
  have hsignificand : (x.significand : ℚ) < 2 ^ (53 : ℤ) := by exact_mod_cast hbelow
  calc |x.toRat| = x.significand * 2 ^ x.exponent := x.abs_toRat
    _ < 2 ^ (53 : ℤ) * 2 ^ x.exponent := by gcongr
    _ ≤ 2 ^ (53 : ℤ) * 2 ^ (971 : ℤ) := by
      gcongr
      norm_num
    _ = 2 ^ (1024 : ℤ) := by
      rw [← zpow_add₀ (by norm_num)]
      rfl

lemma isPositive_iff (x : Binary64) : x.isPositive = true ↔ 0 < x.toRat := by
  have hpow : (0 : ℚ) < 2 ^ x.exponent := by positivity
  rw [isPositive, isZero, toRat]
  cases x.negative with
  | true =>
    have hnonneg : (0 : ℚ) ≤ x.significand * 2 ^ x.exponent := by positivity
    simp [hnonneg]
  | false => simp [hpow, Nat.pos_iff_ne_zero]

end Binary64

/-- A double of any kind. -/
inductive Double where
  | finite (x : Binary64)
  | infinite (negative : Bool)
  | nan
deriving DecidableEq

namespace Double

def isFinite : Double → Bool
  | finite _ => true
  | infinite _ | nan => false

/-- Whether a double is greater than zero, as NaN is not. -/
def exceedsZero : Double → Bool
  | finite x => x.isPositive
  | infinite negative => !negative
  | nan => false

/-- The words that name a double, in any ASCII case. -/
def ofWord? (negative : Bool) (word : List Char) : Option Double :=
  let lower := String.ofList (word.map Char.toLower)
  if lower = "nan" then some nan
  else if lower = "inf" || lower = "infinity" then some (infinite negative)
  else none

/-- The double that a text names; a numeral that is too large names an infinity. -/
def read? (text : String) : Option Double :=
  match Decimal.read? text.toList with
  | some numeral => some (numeral.toBinary64?.elim (infinite numeral.negative) finite)
  | none =>
    let (negative, word) := Decimal.sign text.toList
    ofWord? negative word

/-- The finite number that a text names, or else `fallback`. -/
def number (text : String) (fallback : Double) : Double :=
  match read? text with
  | some x => if x.isFinite then x else fallback
  | none => fallback

/-- The number that `number` gives if it is positive, or else `fallback`. -/
def dimension (text : String) (fallback : Double) : Double :=
  let x := number text fallback
  if x.exceedsZero then x else fallback

lemma not_isFinite_ofWord? {negative : Bool} {word : List Char} {x : Double}
    (h : ofWord? negative word = some x) : x.isFinite = false := by
  rw [ofWord?] at h
  split_ifs at h
  · obtain rfl := Option.some.inj h
    rfl
  · obtain rfl := Option.some.inj h
    rfl

/-- What is finite among the doubles that a text may name is what it names as a finite double. -/
theorem filter_read? (text : String) :
    (read? text).filter isFinite = (Binary64.read? text).map finite := by
  rw [read?, Binary64.read?]
  cases Decimal.read? text.toList with
  | some numeral => cases hx : numeral.toBinary64? <;> simp [hx, isFinite]
  | none =>
    rw [Option.bind_none, Option.map_none, Option.filter_eq_none_iff]
    intro x hx
    simp [not_isFinite_ofWord? hx]

lemma number_eq_getD (text : String) (fallback : Double) :
    number text fallback = ((read? text).filter isFinite).getD fallback := by
  rw [number]
  cases read? text with
  | none => rfl
  | some x => cases hx : x.isFinite <;> simp [hx, Option.filter]

lemma number_eq (text : String) (fallback : Double) :
    number text fallback = ((Binary64.read? text).map finite).getD fallback := by
  rw [number_eq_getD, filter_read?]

lemma dimension_eq (text : String) (fallback : Double) : dimension text fallback =
    (((Binary64.read? text).filter Binary64.isPositive).map finite).getD fallback := by
  rw [dimension, number_eq]
  cases Binary64.read? text with
  | none => simp
  | some x => cases hx : x.isPositive <;> simp [hx, exceedsZero, Option.filter]

/-- One more number leaves a finite one. -/
lemma isFinite_number {fallback : Double} (h : fallback.isFinite = true) (text : String) :
    (number text fallback).isFinite = true := by
  rw [number]
  cases read? text with
  | none => exact h
  | some x =>
    dsimp only
    split_ifs with hx
    · exact hx
    · exact h

/-- A double that can be a width or a height. -/
structure IsLength (x : Double) : Prop where
  finite : x.isFinite = true
  positive : x.exceedsZero = true

/-- One more width or height leaves a finite positive one, whatever its text is. -/
lemma isLength_dimension {fallback : Double} (h : fallback.IsLength) (text : String) :
    (dimension text fallback).IsLength := by
  rw [dimension]
  split_ifs with hpositive
  · exact ⟨isFinite_number h.finite text, hpositive⟩
  · exact h

end Double

/-- A chain of texts falls back on its own last number. Infinities and what names no number are
passed over, as are numbers that are too large, zero or negative. -/
example : (["7", "inf", "-Infinity", "NaN", "1e999", "-3", "-0", "0x10"].foldl
    (fun x text => Double.dimension text x) (.infinite false)) = .finite (.ofNat 7) := by
  decide +kernel

end ArchDiagram
