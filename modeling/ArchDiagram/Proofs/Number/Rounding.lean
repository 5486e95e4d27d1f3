import Mathlib.Algebra.Order.Field.Power
import Mathlib.Tactic.Positivity
import Mathlib.Tactic.Ring
import ArchDiagram.Number.Shortest

/-! Rounding to doubles. The exponent of the nearest double is decided by the bounds on its
significand, so the nearest double depends on the ratio alone and not on how it is written, and a
ratio that is a double is left as it is. The decimal that is chosen for a double therefore reads back
to it, with any number of zeros behind its digits. -/
namespace ArchDiagram

lemma power_pos {b : ℕ} (hb : 0 < b) (e : ℤ) : 0 < power b e :=
  Nat.pow_pos hb

lemma power_of_nonpos (base : ℕ) {e : ℤ} (he : e ≤ 0) : power base e = 1 := by
  rw [power, Int.toNat_of_nonpos he]
  rfl

lemma power_mul (a b : ℕ) (e : ℤ) : power (a * b) e = power a e * power b e :=
  Nat.mul_pow a b _

/-- Of the two powers one is one, and together they make a power of any sign. -/
lemma two_zpow (e : ℤ) : (2 : ℚ) ^ e = power 2 e / power 2 (-e) := by
  obtain ⟨n, rfl | rfl⟩ := e.eq_nat_or_neg
  · simp [power]
  · simp [power]

lemma roundHalfEven_mul_left {k : ℕ} (hk : 0 < k) (n d : ℕ) :
    roundHalfEven (k * n) (k * d) = roundHalfEven n d := by
  have hlt : (k * d < 2 * (k * (n % d))) ↔ d < 2 * (n % d) := by
    rw [Nat.mul_left_comm, Nat.mul_lt_mul_left hk]
  have heq : (2 * (k * (n % d)) = k * d) ↔ 2 * (n % d) = d := by
    rw [Nat.mul_left_comm, Nat.mul_right_inj hk.ne']
  simp only [roundHalfEven, Nat.mul_mod_mul_left, Nat.mul_div_mul_left _ _ hk, Bool.or_eq_true,
    decide_eq_true_eq, Bool.and_eq_true, beq_iff_eq, hlt, heq]

lemma roundHalfEven_mul_right (m : ℕ) {d : ℕ} (hd : 0 < d) : roundHalfEven (m * d) d = m := by
  simp [roundHalfEven, hd, hd.ne]

namespace Binary64

/-- At the exponent `q` the significand of `v` has 53 bits, or `q` is the least exponent. -/
structure Scales (v : ℚ) (q : ℤ) : Prop where
  below : v < 2 ^ (q + 53)
  least : -1074 ≤ q
  full : 2 ^ (q + 52) ≤ v ∨ q = -1074

lemma Scales.le {v : ℚ} {p q : ℤ} (hp : Scales v p) (hq : Scales v q) : p ≤ q := by
  by_contra! h
  have hfull : (2 : ℚ) ^ (p + 52) ≤ v := by
    refine hp.full.resolve_right fun hleast => ?_
    have := hq.least
    omega
  have hmono : (2 : ℚ) ^ (q + 53) ≤ 2 ^ (p + 52) :=
    zpow_le_zpow_right₀ (by norm_num) (by omega)
  exact absurd (hq.below.trans_le (hmono.trans hfull)) (lt_irrefl v)

lemma Scales.unique {v : ℚ} {p q : ℤ} (hp : Scales v p) (hq : Scales v q) : p = q :=
  le_antisymm (hp.le hq) (hq.le hp)

lemma le_scaled_iff (k num : ℕ) {den : ℕ} (hd : 0 < den) (q : ℤ) :
    k ≤ num * power 2 (-q) / (den * power 2 q) ↔ (k : ℚ) * 2 ^ q ≤ num / den := by
  have hq : 0 < power 2 q := power_pos (by decide) q
  have hq' : 0 < power 2 (-q) := power_pos (by decide) (-q)
  rw [Nat.le_div_iff_mul_le (Nat.mul_pos hd hq), two_zpow, mul_div_assoc',
    div_le_div_iff₀ (by positivity) (by positivity), mul_assoc, mul_comm (power 2 q : ℚ)]
  exact_mod_cast Iff.rfl

/-- The logarithms of both sides fix a ratio up to a factor of two on either side. -/
lemma ratio_bounds {num den : ℕ} (hn : 0 < num) (hd : 0 < den) :
    (2 : ℚ) ^ ((num.log2 : ℤ) - den.log2 - 1) ≤ num / den ∧
      (num : ℚ) / den < 2 ^ ((num.log2 : ℤ) - den.log2 + 1) := by
  have hd' : (0 : ℚ) < den := Nat.cast_pos.mpr hd
  have hnl : (2 : ℚ) ^ num.log2 ≤ num := by exact_mod_cast Nat.log2_self_le hn.ne'
  have hnu : (num : ℚ) < 2 ^ (num.log2 + 1) := by exact_mod_cast Nat.lt_log2_self
  have hdl : (2 : ℚ) ^ den.log2 ≤ den := by exact_mod_cast Nat.log2_self_le hd.ne'
  have hdu : (den : ℚ) < 2 ^ (den.log2 + 1) := by exact_mod_cast Nat.lt_log2_self
  constructor
  · rw [le_div_iff₀ hd']
    calc (2 : ℚ) ^ ((num.log2 : ℤ) - den.log2 - 1) * den
        ≤ 2 ^ ((num.log2 : ℤ) - den.log2 - 1) * 2 ^ (den.log2 + 1) := by gcongr
      _ = 2 ^ num.log2 := by
        rw [← zpow_natCast, ← zpow_natCast, ← zpow_add₀ (by norm_num)]
        congr 1
        push_cast
        ring
      _ ≤ num := hnl
  · rw [div_lt_iff₀ hd']
    calc (num : ℚ) < 2 ^ (num.log2 + 1) := hnu
      _ = 2 ^ ((num.log2 : ℤ) - den.log2 + 1) * 2 ^ den.log2 := by
        rw [← zpow_natCast, ← zpow_natCast, ← zpow_add₀ (by norm_num)]
        congr 1
        push_cast
        ring
      _ ≤ 2 ^ ((num.log2 : ℤ) - den.log2 + 1) * den := by gcongr

lemma scales_scale {num den : ℕ} (hn : 0 < num) (hd : 0 < den) :
    Scales (num / den) (scale num den) := by
  obtain ⟨hlow, hhigh⟩ := ratio_bounds hn hd
  rw [scale]
  -- The guess is right or one too low, and the test tells which.
  set guess : ℤ := max ((num.log2 : ℤ) - den.log2 - 53) (-1074) with hguess
  have htest : power 2 53 ≤ num * power 2 (-guess) / (den * power 2 guess) ↔
      (2 : ℚ) ^ (guess + 53) ≤ num / den := by
    rw [le_scaled_iff _ _ hd, add_comm, zpow_add₀ (by norm_num)]
    norm_cast
  have hbelow : (num : ℚ) / den < 2 ^ (guess + 54) :=
    hhigh.trans_le (zpow_le_zpow_right₀ (by norm_num) (by omega))
  have hfull : (2 : ℚ) ^ (guess + 52) ≤ num / den ∨ guess = -1074 := by
    obtain h | h := le_total ((num.log2 : ℤ) - den.log2 - 53) (-1074)
    · exact .inr (hguess.trans (max_eq_right h))
    · exact .inl ((zpow_le_zpow_right₀ (by norm_num) (by omega)).trans hlow)
  split
  case isTrue h =>
    refine ⟨?_, by omega, .inl ?_⟩
    · rw [add_assoc]
      exact hbelow
    · rw [add_assoc]
      exact htest.mp h
  case isFalse h => exact ⟨lt_of_not_ge fun hle => h (htest.mpr hle), by omega, hfull⟩

lemma scale_eq {num den : ℕ} {q : ℤ} (hn : 0 < num) (hd : 0 < den)
    (h : Scales (num / den) q) : scale num den = q :=
  (scales_scale hn hd).unique h

lemma ofRatio?_mul_left (negative : Bool) {k num den : ℕ} (hk : 0 < k) (hn : 0 < num)
    (hd : 0 < den) : ofRatio? negative (k * num) (k * den) = ofRatio? negative num den := by
  have hscale : scale (k * num) (k * den) = scale num den := by
    apply scale_eq (Nat.mul_pos hk hn) (Nat.mul_pos hk hd)
    rw [Nat.cast_mul, Nat.cast_mul, mul_div_mul_left _ _ (Nat.cast_ne_zero.mpr hk.ne')]
    exact scales_scale hn hd
  simp only [ofRatio?, hscale, Nat.mul_assoc, roundHalfEven_mul_left hk]

lemma ofRatio?_congr (negative : Bool) {num den num' den' : ℕ} (hn : 0 < num) (hd : 0 < den)
    (hn' : 0 < num') (hd' : 0 < den') (h : num * den' = num' * den) :
    ofRatio? negative num den = ofRatio? negative num' den' := by
  calc ofRatio? negative num den
      = ofRatio? negative (den' * num) (den' * den) := (ofRatio?_mul_left negative hd' hn hd).symm
    _ = ofRatio? negative (den * num') (den * den') := by
      rw [Nat.mul_comm den' num, h, Nat.mul_comm num', Nat.mul_comm den']
    _ = ofRatio? negative num' den' := ofRatio?_mul_left negative hd hn' hd'

/-- A double is the nearest to its own magnitude. -/
lemma ofRatio?_exact (x : Binary64) {num den : ℕ} (hx : 0 < x.significand) (hd : 0 < den)
    (h : num * power 2 (-x.exponent) = x.significand * (den * power 2 x.exponent)) :
    ofRatio? x.negative num den = some x := by
  obtain ⟨hbelow, hleast, hmost, hfull⟩ := x.canonical
  have hp : 0 < power 2 x.exponent := power_pos (by decide) _
  have hp' : 0 < power 2 (-x.exponent) := power_pos (by decide) _
  have hn : 0 < num := by
    refine Nat.pos_of_ne_zero fun hzero => ?_
    rw [hzero, Nat.zero_mul] at h
    exact absurd h (Nat.mul_pos hx (Nat.mul_pos hd hp)).ne
  have hvalue : (num : ℚ) / den = x.significand * 2 ^ x.exponent := by
    rw [two_zpow, mul_div_assoc', div_eq_div_iff (by positivity) (by positivity), mul_assoc,
      mul_comm (power 2 x.exponent : ℚ)]
    exact_mod_cast h
  have hscale : scale num den = x.exponent := by
    apply scale_eq hn hd
    rw [hvalue]
    refine ⟨?_, hleast, hfull.imp_left fun hle => ?_⟩
    · rw [add_comm, zpow_add₀ (by norm_num)]
      gcongr
      exact_mod_cast hbelow
    · rw [add_comm, zpow_add₀ (by norm_num)]
      gcongr
      exact_mod_cast hle
  rw [ofRatio?, hscale, h, roundHalfEven_mul_right _ (Nat.mul_pos hd hp)]
  simp only [hbelow.ne, if_false, ofParts?, x.canonical, dif_pos]

lemma length_toDigits_mul_pow {c : ℕ} (hc : 0 < c) (j : ℕ) :
    (Nat.toDigits 10 (c * 10 ^ j)).length = (Nat.toDigits 10 c).length + j := by
  induction j with
  | zero => simp
  | succ j ih =>
    have hpos : 0 < c * 10 ^ j := Nat.mul_pos hc (Nat.pow_pos (by decide))
    have h := Nat.toDigits_append_toDigits (b := 10) (d := 0) (by decide) hpos (by decide)
    rw [Nat.pow_succ', Nat.mul_left_comm, ← Nat.add_zero (10 * _), ← h, List.length_append, ih,
      Nat.toDigits_zero, List.length_singleton, Nat.add_assoc]

lemma pow_mul_power_sub (base j : ℕ) (e : ℤ) :
    base ^ j * power base (e - j) * power base (-e) = power base e * power base (-(e - j)) := by
  simp only [power, Nat.pow_eq, ← pow_add]
  congr 1
  omega

/-- Zeros behind the digits of a decimal may be traded for its exponent. -/
lemma ofDecimal?_mul_pow (negative : Bool) (c : ℕ) (e : ℤ) (j : ℕ) :
    ofDecimal? negative (c * 10 ^ j) (e - j) = ofDecimal? negative c e := by
  obtain rfl | hc := c.eq_zero_or_pos
  · simp [ofDecimal?]
  have hsize : ((Nat.toDigits 10 (c * 10 ^ j)).length : ℤ) + (e - j) =
      (Nat.toDigits 10 c).length + e := by
    rw [length_toDigits_mul_pow hc]
    omega
  have hzero : c * 10 ^ j = 0 ↔ c = 0 := by simp
  have hratio : ofRatio? negative (c * 10 ^ j * power 10 (e - j)) (power 10 (-(e - j))) =
      ofRatio? negative (c * power 10 e) (power 10 (-e)) := by
    have hpos (e : ℤ) : 0 < power 10 e := power_pos (by decide) e
    have hpos' : 0 < 10 ^ j := Nat.pow_pos (by decide)
    refine ofRatio?_congr negative (Nat.mul_pos (Nat.mul_pos hc hpos') (hpos _)) (hpos _)
      (Nat.mul_pos hc (hpos _)) (hpos _) ?_
    rw [Nat.mul_assoc c, Nat.mul_assoc c, pow_mul_power_sub, Nat.mul_assoc c]
  simp only [ofDecimal?, hsize, hzero, hratio]

/-- Within the range of sizes a decimal is read as a ratio. -/
lemma ofDecimal?_eq_ofRatio? (negative : Bool) {c : ℕ} {e : ℤ} (hc : 0 < c)
    (hlow : -330 ≤ ((Nat.toDigits 10 c).length : ℤ) + e)
    (hhigh : ((Nat.toDigits 10 c).length : ℤ) + e ≤ 310) :
    ofDecimal? negative c e = ofRatio? negative (c * power 10 e) (power 10 (-e)) := by
  simp only [ofDecimal?, hc.ne', decide_false, Bool.false_or, hlow.not_gt, hhigh.not_gt, if_false,
    Bool.false_eq_true]

lemma lt_pow_length_toDigits (c : ℕ) : c < 10 ^ (Nat.toDigits 10 c).length :=
  (Nat.length_toDigits_le_iff (by decide) Nat.length_toDigits_pos).mp le_rfl

/-- The size of a fraction: its significand has at most sixteen digits, and no positive double is
below `10 ^ -324`. -/
lemma length_toDigits_mul_five_pow {m n : ℕ} (hm : 0 < m) (hlt : m < 2 ^ 53) (hn : n ≤ 1074) :
    n < (Nat.toDigits 10 (m * 5 ^ n)).length + 324 ∧
      (Nat.toDigits 10 (m * 5 ^ n)).length ≤ n + 16 := by
  constructor
  · have htwo : 2 ^ n ≤ 10 ^ 324 :=
      (Nat.pow_le_pow_right (by decide) hn).trans (by decide +kernel)
    have hten : 10 ^ n < 10 ^ ((Nat.toDigits 10 (m * 5 ^ n)).length + 324) := by
      calc 10 ^ n = 5 ^ n * 2 ^ n := Nat.mul_pow 5 2 n
        _ ≤ m * 5 ^ n * 10 ^ 324 := Nat.mul_le_mul (Nat.le_mul_of_pos_left _ hm) htwo
        _ < 10 ^ (Nat.toDigits 10 (m * 5 ^ n)).length * 10 ^ 324 :=
          Nat.mul_lt_mul_of_pos_right (lt_pow_length_toDigits _) (by positivity)
        _ = 10 ^ ((Nat.toDigits 10 (m * 5 ^ n)).length + 324) := by rw [Nat.pow_add]
    exact (Nat.pow_lt_pow_iff_right (by decide)).mp hten
  · rw [Nat.length_toDigits_le_iff (by decide) (by omega)]
    calc m * 5 ^ n < 2 ^ 53 * 5 ^ n := Nat.mul_lt_mul_of_pos_right hlt (Nat.pow_pos (by decide))
      _ ≤ 10 ^ 16 * 10 ^ n := Nat.mul_le_mul (by decide) (Nat.pow_le_pow_left (by decide) n)
      _ = 10 ^ (n + 16) := by rw [Nat.pow_add, Nat.mul_comm]

/-- No double reaches `10 ^ 310`. -/
lemma length_toDigits_mul_two_pow {m n : ℕ} (hlt : m < 2 ^ 53) (hn : n ≤ 971) :
    (Nat.toDigits 10 (m * 2 ^ n)).length ≤ 310 := by
  rw [Nat.length_toDigits_le_iff (by decide) (by decide)]
  calc m * 2 ^ n < 2 ^ 53 * 2 ^ n := Nat.mul_lt_mul_of_pos_right hlt (Nat.pow_pos (by decide))
    _ ≤ 2 ^ 53 * 2 ^ 971 := Nat.mul_le_mul_left _ (Nat.pow_le_pow_right (by decide) hn)
    _ ≤ 10 ^ 310 := by decide +kernel

lemma exactDecimal_reads (x : Binary64) (hx : 0 < x.significand) :
    ofDecimal? x.negative x.exactDecimal.1 x.exactDecimal.2 = some x := by
  obtain ⟨hbelow, hleast, hmost, -⟩ := x.canonical
  rw [exactDecimal]
  split
  case isTrue hwhole =>
    have hlength := length_toDigits_mul_two_pow hbelow (n := x.exponent.toNat) (by omega)
    have hpos : 0 < x.significand * power 2 x.exponent :=
      Nat.mul_pos hx (power_pos (by decide) _)
    rw [ofDecimal?_eq_ofRatio? _ hpos (by omega) (by simpa [power] using hlength)]
    refine ofRatio?_exact x hx (power_pos (by decide) _) ?_
    have hnonpos : -x.exponent ≤ 0 := by omega
    rw [power_of_nonpos 2 hnonpos, power_of_nonpos 10 le_rfl, neg_zero,
      power_of_nonpos 10 le_rfl, Nat.mul_one, Nat.mul_one, Nat.one_mul]
  case isFalse hfraction =>
    have hlength := length_toDigits_mul_five_pow hx hbelow (n := (-x.exponent).toNat) (by omega)
    have hpos : 0 < x.significand * power 5 (-x.exponent) :=
      Nat.mul_pos hx (power_pos (by decide) _)
    rw [ofDecimal?_eq_ofRatio? _ hpos (by simp only [power, Nat.pow_eq]; omega)
      (by simp only [power, Nat.pow_eq]; omega)]
    refine ofRatio?_exact x hx (power_pos (by decide) _) ?_
    have hnonpos : x.exponent ≤ 0 := by omega
    rw [power_of_nonpos 10 hnonpos, power_of_nonpos 2 hnonpos, power_mul 5 2, Nat.mul_one, Nat.mul_one,
      Nat.mul_assoc]

lemma onGrid?_reads {tie : Tie} {x : Binary64} {e : ℤ} {c : ℕ} (h : x.onGrid? tie e = some c) :
    ofDecimal? x.negative c e = some x := by
  have hreads : x.readsBack c e = true := by
    rw [onGrid?] at h
    split at h <;> grind
  exact of_decide_eq_true hreads

lemma coarsest?_reads {tie : Tie} {x : Binary64} {top : ℤ} {count : ℕ} {c : ℕ} {e : ℤ}
    (h : x.coarsest? tie top count = some (c, e)) : ofDecimal? x.negative c e = some x := by
  induction count generalizing top with
  | zero => cases h
  | succ count ih =>
    rw [coarsest?] at h
    split at h
    case h_1 c' hgrid =>
      cases h
      exact onGrid?_reads hgrid
    case h_2 => exact ih h

lemma eq_zero_of_isZero {x : Binary64} (h : x.isZero = true) : x = zero x.negative := by
  obtain ⟨negative, significand, exponent, hcanonical⟩ := x
  have hsignificand : significand = 0 := by simpa [isZero] using h
  have hexponent : exponent = -1074 := by
    refine hcanonical.2.2.2.resolve_left fun hfull => ?_
    exact absurd (hsignificand ▸ hfull) (by decide)
  subst hsignificand hexponent
  rfl

/-- The decimal chosen for a double reads back to it. -/
theorem ofDecimal?_shortest (tie : Tie) (x : Binary64) :
    ofDecimal? x.negative (x.shortest tie).1 (x.shortest tie).2 = some x := by
  rw [shortest]
  split
  case isTrue hzero =>
    rw [eq_zero_of_isZero hzero]
    rfl
  case isFalse hzero =>
    cases h : x.coarsest? tie x.topExponent 20 with
    | some p => exact coarsest?_reads h
    -- Nothing is said of how many grids are needed: the exact decimal would serve as well.
    | none => exact exactDecimal_reads x (Nat.pos_of_ne_zero (by simpa [isZero] using hzero))

end Binary64

end ArchDiagram
