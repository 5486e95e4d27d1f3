import ArchDiagram.Proofs.Number.Rounding

/-! Numbers as texts. In every layout the text of a double reads back to it, so different doubles
have different texts. -/
namespace ArchDiagram

/-- What goes on for as long as `p` holds ends where the rest begins. -/
lemma span_append {α : Type} {p : α → Bool} {xs rest : List α} (hxs : ∀ x ∈ xs, p x = true)
    (hrest : ∀ x ∈ rest.head?, p x = false) :
    (xs ++ rest).takeWhile p = xs ∧ (xs ++ rest).dropWhile p = rest := by
  rw [List.takeWhile_append_of_pos hxs, List.dropWhile_append_of_pos hxs]
  cases rest with
  | nil => simp
  | cons x rest =>
    have hx : p x = false := hrest x rfl
    simp [hx]

namespace Decimal

lemma isDigit_toDigits {n : ℕ} : ∀ c ∈ Nat.toDigits 10 n, isDigit c = true := by
  intro c hc
  have hdigit := Nat.isDigit_of_mem_toDigits (by decide) (by decide) hc
  simpa [isDigit, Char.isDigit, Char.le_def] using hdigit

lemma isDigit_zeros (n : ℕ) : ∀ c ∈ List.replicate n '0', isDigit c = true := by
  intro c hc
  rw [List.eq_of_mem_replicate hc]
  rfl

lemma ofDigits_eq (ds : List Char) : ofDigits ds = Nat.ofDigitChars 10 ds 0 := rfl

@[simp] lemma ofDigits_toDigits (n : ℕ) : ofDigits (Nat.toDigits 10 n) = n :=
  Nat.ofDigitChars_ten_toDigits

@[simp] lemma ofDigits_append_zeros (ds : List Char) (n : ℕ) :
    ofDigits (ds ++ List.replicate n '0') = ofDigits ds * 10 ^ n := by
  rw [ofDigits_eq, Nat.ofDigitChars_append, Nat.ofDigitChars_replicate_zero, Nat.mul_comm]
  rfl

@[simp] lemma ofDigits_zeros_append (ds : List Char) (n : ℕ) :
    ofDigits (List.replicate n '0' ++ ds) = ofDigits ds := by
  rw [ofDigits_eq, Nat.ofDigitChars_append, Nat.ofDigitChars_replicate_zero, Nat.mul_zero]
  rfl

/-- A text with its sign; only a minus is written. -/
def signed (negative : Bool) (body : List Char) : List Char :=
  if negative then '-' :: body else body

lemma sign_signed (negative : Bool) {whole rest : List Char} (hne : whole ≠ [])
    (hwhole : ∀ c ∈ whole, isDigit c = true) :
    sign (signed negative (whole ++ rest)) = (negative, whole ++ rest) := by
  obtain ⟨d, ds, rfl⟩ := List.exists_cons_of_ne_nil hne
  have hd : isDigit d = true := hwhole d List.mem_cons_self
  cases negative with
  | true => rfl
  | false =>
    have hminus : d ≠ '-' := by
      rintro rfl
      exact absurd hd (by decide)
    have hplus : d ≠ '+' := by
      rintro rfl
      exact absurd hd (by decide)
    simp [signed, sign, hminus, hplus]

/-- The text is empty or goes on with an exponent. -/
def EndsMantissa (rest : List Char) : Prop :=
  ∀ c ∈ rest.head?, c = 'e'

lemma EndsMantissa.not_digit {rest : List Char} (h : EndsMantissa rest) :
    ∀ c ∈ rest.head?, isDigit c = false := by
  intro c hc
  rw [h c hc]
  decide

lemma endsMantissa_nil : EndsMantissa [] := by
  simp [EndsMantissa]

lemma EndsMantissa.fraction {rest : List Char} (h : EndsMantissa rest) :
    fraction rest = ([], rest) := by
  cases rest with
  | nil => rfl
  | cons c cs =>
    obtain rfl : c = 'e' := h c rfl
    rfl

section Parts

variable (negative : Bool) {whole rest : List Char} {e : ℤ}

lemma read?_whole (hne : whole ≠ []) (hwhole : ∀ c ∈ whole, isDigit c = true)
    (hrest : EndsMantissa rest) (he : readExponent? rest = some e) :
    read? (signed negative (whole ++ rest)) = some ⟨negative, ofDigits whole, e⟩ := by
  obtain ⟨htake, hdrop⟩ := span_append hwhole hrest.not_digit
  simp only [read?, sign_signed negative hne hwhole, htake, hdrop, hrest.fraction, he]
  simp [hne]

lemma read?_point (hne : whole ≠ []) (hwhole : ∀ c ∈ whole, isDigit c = true) (part : List Char)
    (hpart : ∀ c ∈ part, isDigit c = true) (hrest : EndsMantissa rest)
    (he : readExponent? rest = some e) :
    read? (signed negative (whole ++ '.' :: (part ++ rest))) =
      some ⟨negative, ofDigits (whole ++ part), e - part.length⟩ := by
  have hpoint : ∀ c ∈ ('.' :: (part ++ rest)).head?, isDigit c = false := by
    rintro _ ⟨⟩
    rfl
  obtain ⟨htake, hdrop⟩ := span_append hwhole hpoint
  obtain ⟨htake', hdrop'⟩ := span_append hpart hrest.not_digit
  simp only [read?, sign_signed negative hne hwhole, htake, hdrop, fraction, htake', hdrop', he]
  simp [hne]

end Parts

lemma readExponent?_signed (e : ℤ) :
    readExponent? ('e' :: (if e < 0 then '-' else '+') :: Nat.toDigits 10 e.natAbs) = some e := by
  have hdigits : (Nat.toDigits 10 e.natAbs).all isDigit = true :=
    List.all_eq_true.mpr isDigit_toDigits
  split
  case isTrue hneg =>
    simp [readExponent?, sign, hdigits, abs_of_neg hneg]
  case isFalse hpos =>
    simp [readExponent?, sign, hdigits, abs_of_nonneg (not_lt.mp hpos)]

end Decimal

namespace NumberLayout

open Decimal

section Shapes

variable (negative : Bool) {digits : List Char} (hne : digits ≠ [])
  (hdigits : ∀ d ∈ digits, isDigit d = true) (e : ℤ)

include hne hdigits

/-- Zeros behind the digits, and perhaps one more behind a point. -/
lemma read?_zeros (pointZero : Bool) (n : ℕ) : ∃ j : ℕ,
    read? (signed negative
      (digits ++ List.replicate n '0' ++ if pointZero then ['.', '0'] else [])) =
        some ⟨negative, ofDigits digits * 10 ^ j, n - j⟩ := by
  have hwhole : ∀ d ∈ digits ++ List.replicate n '0', isDigit d = true :=
    List.forall_mem_append.mpr ⟨hdigits, isDigit_zeros _⟩
  have hne' : digits ++ List.replicate n '0' ≠ [] := List.append_ne_nil_of_left_ne_nil hne _
  cases pointZero with
  | true =>
    refine ⟨n + 1, (read?_point negative hne' hwhole ['0'] (isDigit_zeros 1) endsMantissa_nil
      (e := 0) rfl).trans ?_⟩
    rw [List.append_assoc, ← List.replicate_succ', ofDigits_append_zeros, List.length_singleton]
    congr 2
    omega
  | false =>
    refine ⟨n, (read?_whole negative hne' hwhole endsMantissa_nil (e := 0) rfl).trans ?_⟩
    rw [ofDigits_append_zeros]
    congr 2
    omega

lemma read?_inside {places : ℕ} (h : places < digits.length) :
    read? (signed negative (digits.take (digits.length - places) ++
      '.' :: digits.drop (digits.length - places))) =
        some ⟨negative, ofDigits digits, -places⟩ := by
  have hwhole : digits.take (digits.length - places) ≠ [] := by
    rw [ne_eq, List.take_eq_nil_iff, not_or]
    exact ⟨by omega, hne⟩
  have hread := read?_point negative hwhole
    (fun d hd => hdigits d (List.mem_of_mem_take hd)) (digits.drop (digits.length - places))
    (fun d hd => hdigits d (List.mem_of_mem_drop hd)) endsMantissa_nil (e := 0) rfl
  rw [List.take_append_drop, List.append_nil] at hread
  rw [hread, List.length_drop]
  congr 2
  omega

omit hne in
lemma read?_inFront {places : ℕ} (h : digits.length ≤ places) :
    read? (signed negative ('0' :: '.' :: List.replicate (places - digits.length) '0' ++ digits)) =
      some ⟨negative, ofDigits digits, -places⟩ := by
  have hread := read?_point negative (List.cons_ne_nil '0' []) (isDigit_zeros 1)
    (List.replicate (places - digits.length) '0' ++ digits)
    (List.forall_mem_append.mpr ⟨isDigit_zeros _, hdigits⟩) endsMantissa_nil (e := 0) rfl
  rw [List.append_nil, ← List.append_assoc, ← List.replicate_one, ← List.replicate_add,
    ofDigits_zeros_append, List.length_append, List.length_replicate] at hread
  refine hread.trans ?_
  congr 2
  omega

lemma read?_placePoint (pointZero : Bool) :
    ∃ j : ℕ, read? (signed negative (placePoint pointZero digits e)) =
      some ⟨negative, ofDigits digits * 10 ^ j, e - j⟩ := by
  rw [placePoint]
  split
  case isTrue hpos =>
    obtain ⟨j, hread⟩ := read?_zeros negative hne hdigits pointZero e.toNat
    rw [Int.toNat_of_nonneg hpos] at hread
    exact ⟨j, hread⟩
  case isFalse hneg =>
    have hplaces : -((-e).toNat : ℤ) = e := by omega
    refine ⟨0, ?_⟩
    rw [pow_zero, Nat.mul_one, Nat.cast_zero, sub_zero]
    dsimp only
    split
    case isTrue hinside =>
      rw [read?_inside negative hne hdigits hinside, hplaces]
    case isFalse houtside =>
      rw [read?_inFront negative hdigits (Nat.le_of_not_lt houtside), hplaces]

lemma read?_scientific :
    read? (signed negative (scientific digits (e + digits.length - 1))) =
      some ⟨negative, ofDigits digits, e⟩ := by
  have hexponent := readExponent?_signed (e + digits.length - 1)
  have hends (ds : List Char) : EndsMantissa ('e' :: ds) := by
    rintro _ ⟨⟩
    rfl
  obtain ⟨d, ds, rfl⟩ := List.exists_cons_of_ne_nil hne
  cases ds with
  | nil =>
    refine (read?_whole negative hne hdigits (hends _) hexponent).trans ?_
    congr 2
    simp
  | cons d' ds =>
    obtain ⟨hd, hds⟩ := List.forall_mem_cons.mp hdigits
    refine (read?_point negative (List.cons_ne_nil d []) (List.forall_mem_singleton.mpr hd)
      (d' :: ds) hds (hends _) hexponent).trans ?_
    congr 2
    simp only [List.length_cons]
    omega

end Shapes

lemma toList_write (f : NumberLayout) (x : Binary64) :
    (f.write x).toList = signed x.negative
      (if f.isPositional ((x.shortest f.tie).2 + (Nat.toDigits 10 (x.shortest f.tie).1).length - 1)
        then placePoint f.pointZero (Nat.toDigits 10 (x.shortest f.tie).1) (x.shortest f.tie).2
        else scientific (Nat.toDigits 10 (x.shortest f.tie).1)
          ((x.shortest f.tie).2 + (Nat.toDigits 10 (x.shortest f.tie).1).length - 1)) :=
  String.toList_ofList

lemma exists_read?_write (f : NumberLayout) (x : Binary64) :
    ∃ j : ℕ, read? (f.write x).toList =
      some ⟨x.negative, (x.shortest f.tie).1 * 10 ^ j, (x.shortest f.tie).2 - j⟩ := by
  rw [toList_write]
  split
  case isTrue =>
    simpa using read?_placePoint x.negative Nat.toDigits_ne_nil isDigit_toDigits
      (x.shortest f.tie).2 f.pointZero
  case isFalse =>
    have hread := read?_scientific x.negative Nat.toDigits_ne_nil
      (isDigit_toDigits (n := (x.shortest f.tie).1)) (x.shortest f.tie).2
    exact ⟨0, by simpa using hread⟩

/-- The text of a double reads back to it. -/
theorem read?_write (f : NumberLayout) (x : Binary64) : Binary64.read? (f.write x) = some x := by
  obtain ⟨j, hread⟩ := exists_read?_write f x
  rw [Binary64.read?, hread, Option.bind_some, toBinary64?, Binary64.ofDecimal?_mul_pow]
  exact x.ofDecimal?_shortest f.tie

theorem write_injective (f : NumberLayout) : Function.Injective f.write := by
  intro x y h
  have hread := congrArg Binary64.read? h
  rw [read?_write, read?_write] at hread
  exact Option.some.inj hread

/-- Digits, signs, the point and the mark of an exponent. -/
def isNumeral (c : Char) : Bool :=
  isDigit c || ['-', '+', '.', 'e'].contains c

lemma isNumeral_of_isDigit {c : Char} (h : isDigit c = true) : isNumeral c = true := by
  rw [isNumeral, h, Bool.true_or]

lemma isNumeral_of_mem_signed {negative : Bool} {body : List Char}
    (hbody : ∀ c ∈ body, isNumeral c = true) : ∀ c ∈ signed negative body, isNumeral c = true := by
  cases negative with
  | true => exact List.forall_mem_cons.mpr ⟨rfl, hbody⟩
  | false => exact hbody

section Characters

variable {digits : List Char} (hdigits : ∀ d ∈ digits, isDigit d = true) (e : ℤ)

include hdigits

lemma isNumeral_of_mem_placePoint (pointZero : Bool) :
    ∀ c ∈ placePoint pointZero digits e, isNumeral c = true := by
  have hnumeral : ∀ c ∈ digits, isNumeral c = true := fun c hc =>
    isNumeral_of_isDigit (hdigits c hc)
  have hzeros (n : ℕ) : ∀ c ∈ List.replicate n '0', isNumeral c = true := fun c hc =>
    isNumeral_of_isDigit (isDigit_zeros n c hc)
  rw [placePoint]
  split
  case isTrue =>
    refine List.forall_mem_append.mpr ⟨List.forall_mem_append.mpr ⟨hnumeral, hzeros _⟩, ?_⟩
    split
    · exact List.forall_mem_cons.mpr ⟨rfl, List.forall_mem_singleton.mpr rfl⟩
    · exact List.forall_mem_nil _
  case isFalse =>
    dsimp only
    split
    case isTrue =>
      refine List.forall_mem_append.mpr ⟨fun c hc => hnumeral c (List.mem_of_mem_take hc), ?_⟩
      exact List.forall_mem_cons.mpr ⟨rfl, fun c hc => hnumeral c (List.mem_of_mem_drop hc)⟩
    case isFalse =>
      refine List.forall_mem_cons.mpr ⟨rfl, List.forall_mem_cons.mpr ⟨rfl, ?_⟩⟩
      exact List.forall_mem_append.mpr ⟨hzeros _, hnumeral⟩

lemma isNumeral_of_mem_scientific : ∀ c ∈ scientific digits e, isNumeral c = true := by
  have hnumeral : ∀ c ∈ digits, isNumeral c = true := fun c hc =>
    isNumeral_of_isDigit (hdigits c hc)
  have hexponent : ∀ c ∈ 'e' :: (if e < 0 then '-' else '+') :: Nat.toDigits 10 e.natAbs,
      isNumeral c = true := by
    refine List.forall_mem_cons.mpr ⟨rfl, List.forall_mem_cons.mpr ⟨?_, fun c hc => ?_⟩⟩
    · split <;> rfl
    · exact isNumeral_of_isDigit (isDigit_toDigits c hc)
  refine List.forall_mem_append.mpr ⟨?_, hexponent⟩
  split
  case h_1 d d' ds =>
    obtain ⟨hd, hds⟩ := List.forall_mem_cons.mp hnumeral
    exact List.forall_mem_cons.mpr ⟨hd, List.forall_mem_cons.mpr ⟨rfl, hds⟩⟩
  case h_2 => exact hnumeral

end Characters

lemma isNumeral_of_mem_write (f : NumberLayout) (x : Binary64) :
    ∀ c ∈ (f.write x).toList, isNumeral c = true := by
  rw [toList_write]
  apply isNumeral_of_mem_signed
  split
  · exact isNumeral_of_mem_placePoint isDigit_toDigits _ _
  · exact isNumeral_of_mem_scientific isDigit_toDigits _

lemma toList_write_ne_nil (f : NumberLayout) (x : Binary64) : (f.write x).toList ≠ [] := by
  intro h
  have hread := f.read?_write x
  rw [Binary64.read?, h] at hread
  cases hread

end NumberLayout

end ArchDiagram
