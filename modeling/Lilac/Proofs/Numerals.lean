import Lilac.Proofs.Names

/-!
# Doubles in the wide notation

The reader of doubles in plain data computes no powers of ten that no finite double needs: beyond
them it answers with an infinity or with zero. It answers what rounding would, whatever the decimal.
Digits on both sides of a point are therefore read as the double nearest to the decimal they denote.
-/

namespace Lilac

/-! ## Rounding at the ends of the range -/

private theorem natPow_add (base j k : Nat) :
    Nat.pow base (j + k) = Nat.pow base j * Nat.pow base k :=
  Nat.pow_add base j k

/-- Ten has more than three bits. -/
private theorem natPow_two_le_ten {j k : Nat} (h : j ≤ 3 * k) : Nat.pow 2 j ≤ Nat.pow 10 k :=
  calc Nat.pow 2 j
      ≤ Nat.pow 2 (3 * k) := Nat.pow_le_pow_right (by decide) h
    _ = Nat.pow (Nat.pow 2 3) k := Nat.pow_mul 2 3 k
    _ ≤ Nat.pow 10 k := Nat.pow_le_pow_left (by decide) k

private theorem le_roundHalfEven (n d : Nat) : n / d ≤ roundHalfEven n d := by
  simp only [roundHalfEven]
  split
  · exact Nat.le_refl _
  · split <;> omega

/-- A fraction of at least `2 ^ j` has a scale and a significand that are at least as large as those
of `2 ^ j`. -/
private theorem le_rankIn {j k n d : Nat} (hd : 0 < d) (h : Nat.pow 2 j * d ≤ n)
    (hbits : 52 ≤ j + k) : (j + k - 51) * Nat.pow 2 52 ≤ rankIn (Nat.pow 2 k) n d := by
  have hquotient : Nat.pow 2 (j + k) ≤ n * Nat.pow 2 k / d := by
    rw [Nat.le_div_iff_mul_le hd, natPow_add, Nat.mul_right_comm]
    exact Nat.mul_le_mul_right _ h
  have hpositive : n * Nat.pow 2 k / d ≠ 0 :=
    Nat.ne_of_gt (Nat.lt_of_lt_of_le (Nat.pow_pos (by decide)) hquotient)
  have hlog : j + k ≤ (n * Nat.pow 2 k / d).log2 := (Nat.le_log2 hpositive).mpr hquotient
  rw [rankIn]
  generalize hscale : (n * Nat.pow 2 k / d).log2 - 52 = scale
  have hsignificand : Nat.pow 2 52 ≤ roundHalfEven (n * Nat.pow 2 k) (d * Nat.pow 2 scale) :=
    calc Nat.pow 2 52
        = Nat.pow 2 (52 + scale) / Nat.pow 2 scale := by
          have hpositive : 0 < Nat.pow 2 scale := Nat.pow_pos (by decide)
          rw [natPow_add, Nat.mul_div_cancel _ hpositive]
      _ ≤ n * Nat.pow 2 k / d / Nat.pow 2 scale := by
          have hbits : 52 + scale = (n * Nat.pow 2 k / d).log2 := by omega
          rw [hbits]
          exact Nat.div_le_div_right (Nat.log2_self_le hpositive)
      _ = n * Nat.pow 2 k / (d * Nat.pow 2 scale) := Nat.div_div_eq_div_mul _ _ _
      _ ≤ _ := le_roundHalfEven _ _
  calc (j + k - 51) * Nat.pow 2 52
      ≤ (scale + 1) * Nat.pow 2 52 := Nat.mul_le_mul_right _ (by omega)
    _ = scale * Nat.pow 2 52 + Nat.pow 2 52 := Nat.succ_mul _ _
    _ ≤ _ := Nat.add_le_add_left hsignificand _

private theorem magnitudeCount_le_nearestRank {n d k : Nat} (hd : 0 < d) (hk : 1024 ≤ 3 * k)
    (h : Nat.pow 10 k * d ≤ n) : magnitudeCount ≤ nearestRank n d := by
  have hcount : magnitudeCount = (1024 + 1074 - 51) * Nat.pow 2 52 := rfl
  have hbits : 52 ≤ 1024 + 1074 := by decide
  rw [nearestRank_eq, hcount]
  -- with the exponents out of sight the powers are not computed
  generalize 1024 = j at hk hbits ⊢
  generalize 1074 = k at hbits ⊢
  exact le_rankIn hd (Nat.le_trans (Nat.mul_le_mul_right d (natPow_two_le_ten hk)) h) hbits

private theorem nearestRank_eq_zero {n d k : Nat} (hk : 1074 + 1 ≤ 3 * k)
    (h : n * Nat.pow 10 k < d) : nearestRank n d = 0 := by
  rw [nearestRank_eq]
  generalize 1074 = j at hk ⊢
  have hunits : 2 * (n * Nat.pow 2 j) < d :=
    calc 2 * (n * Nat.pow 2 j)
        = n * (Nat.pow 2 j * 2) := by rw [Nat.mul_comm 2, Nat.mul_assoc]
      _ ≤ n * Nat.pow 10 k := Nat.mul_le_mul_left n (natPow_two_le_ten hk)
      _ < d := h
  generalize Nat.pow 2 j = unit at hunits ⊢
  have hquotient : n * unit / d = 0 := Nat.div_eq_of_lt (by omega)
  have hone : d * Nat.pow 2 0 = d := Nat.mul_one d
  rw [rankIn, hquotient, Nat.log2_zero, Nat.zero_sub, Nat.zero_mul, Nat.zero_add, hone,
    roundHalfEven, hquotient, Nat.mod_eq_of_lt (by omega), if_pos hunits]

namespace Decimal

variable {d : Decimal}

/-- A number has as many digits as its leading one tells. -/
theorem coefficient_bounds (h : d.coefficient ≠ 0) :
    Nat.pow 10 (d.digits.length - 1) ≤ d.coefficient ∧
      d.coefficient < Nat.pow 10 d.digits.length := by
  have hlength {k : Nat} (hk : 0 < k) : d.digits.length ≤ k ↔ d.coefficient < Nat.pow 10 k :=
    Nat.length_toDigits_le_iff (by decide) hk
  have hpos : 0 < d.digits.length := List.length_pos_iff.mpr (toAsciiDigits_ne_nil _)
  refine ⟨?_, (hlength hpos).mp (Nat.le_refl _)⟩
  by_cases hone : d.digits.length - 1 = 0
  · rw [hone]
    exact Nat.pos_of_ne_zero h
  · exact Nat.le_of_not_lt fun hlt ↦ by
      have := (hlength (by omega)).mpr hlt
      omega

private theorem pow_mul_denominator_le (h : d.coefficient ≠ 0) {k : Nat}
    (hk : (k : Int) ≤ d.leadingExponent) : Nat.pow 10 k * d.denominator ≤ d.numerator := by
  have hpos : 0 < d.digits.length := List.length_pos_iff.mpr (toAsciiDigits_ne_nil _)
  rw [leadingExponent] at hk
  calc Nat.pow 10 k * d.denominator
      = Nat.pow 10 (k + (-d.exponent).toNat) := (natPow_add 10 _ _).symm
    _ ≤ Nat.pow 10 (d.digits.length - 1 + d.exponent.toNat) :=
        Nat.pow_le_pow_right (by decide) (by omega)
    _ = Nat.pow 10 (d.digits.length - 1) * Nat.pow 10 d.exponent.toNat := natPow_add 10 _ _
    _ ≤ d.numerator := Nat.mul_le_mul_right _ (coefficient_bounds h).1

private theorem numerator_mul_pow_lt (h : d.coefficient ≠ 0) {k : Nat}
    (hk : d.leadingExponent < -(k : Int)) : d.numerator * Nat.pow 10 k < d.denominator := by
  rw [leadingExponent] at hk
  have hexponent : d.exponent.toNat = 0 := by omega
  have hnumerator : d.numerator = d.coefficient := by
    rw [numerator, hexponent]
    exact Nat.mul_one _
  calc d.numerator * Nat.pow 10 k
      < Nat.pow 10 d.digits.length * Nat.pow 10 k := by
        rw [hnumerator]
        exact Nat.mul_lt_mul_of_pos_right (coefficient_bounds h).2 (Nat.pow_pos (by decide))
    _ = Nat.pow 10 (d.digits.length + k) := (natPow_add 10 _ _).symm
    _ ≤ d.denominator := Nat.pow_le_pow_right (by decide) (by omega)

end Decimal

namespace Double

/-- The short cut for large and small powers of ten answers what rounding would. -/
theorem ofBoundedDecimal_eq (negative : Bool) (d : Decimal) :
    ofBoundedDecimal negative d = ofDecimal negative d := by
  have hzero (hrank : d.nearestRank = 0) : .finite negative .zero = ofDecimal negative d :=
    (Literal.ofDecimal_of_nearestRank (x := .zero) hrank negative).symm
  rw [ofBoundedDecimal]
  split
  · next hcoefficient =>
    apply hzero
    rw [Decimal.nearestRank, nearestRank_eq, Decimal.numerator, hcoefficient, Nat.zero_mul,
      rankIn_zero]
  · next hcoefficient =>
    split
    · next hlarge =>
      have hlimit : ((400 : Nat) : Int) ≤ d.leadingExponent := Int.le_of_lt hlarge
      have hrank : magnitudeCount ≤ d.nearestRank :=
        magnitudeCount_le_nearestRank d.denominator_pos (by decide)
          (Decimal.pow_mul_denominator_le hcoefficient hlimit)
      rw [ofDecimal, dif_neg (Nat.not_lt.mpr hrank)]
    · split
      · next hsmall =>
        have hlimit : d.leadingExponent < -((400 : Nat) : Int) := hsmall
        exact hzero (nearestRank_eq_zero (by decide)
          (Decimal.numerator_mul_pow_lt hcoefficient hlimit))
      · rfl

end Double

/-- Digits on both sides of a point, behind an optional minus sign, are read as the double nearest
to the decimal they denote. -/
theorem Double.read?_of_parts {whole fraction : Text} (negative : Bool)
    (hwhole : Literal.isDigits whole = true) (hfraction : Literal.isDigits fraction = true) :
    read? (signed negative (whole ++ '.' :: fraction)) =
      some (ofDecimal negative (Decimal.ofParts whole fraction)) := by
  have hread :=
    (Numeral.Spelling.ofParts negative ⟨whole, hwhole⟩ ⟨fraction, hfraction⟩).read?_text
  rw [Numeral.Spelling.text_ofParts, Numeral.Spelling.decimal_ofParts] at hread
  rw [read?, hread, Option.map_some, ofNumeral, ofBoundedDecimal_eq]
  rfl

end Lilac
