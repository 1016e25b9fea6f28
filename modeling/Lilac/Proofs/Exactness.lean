import Lilac.Proofs.Literals
import Mathlib.Algebra.Field.Rat
import Mathlib.Tactic.FieldSimp

/-!
# Numbers printed exactly

A spelt number denotes a rational number: what stands before the point, what stands behind it in
parts of a power of ten, both times the power of ten at the end, with the sign in front. Written out
without an exponent it denotes the same rational number with the same sign, whatever the number of
its digits and the size of its exponent. Literals of kind `float` are printed in this way from the
text that their value is shown as, which is a spelt number for every finite double and for every
integer that has a text.

About `_format_expression`.
-/

namespace Lilac

/-! ## Rational numbers -/

namespace Decimal

/-- The rational number that a decimal denotes. -/
def toRat (d : Decimal) : ℚ := d.coefficient * 10 ^ d.exponent

/-- The denominator of a decimal is not zero as a rational number. -/
theorem denominator_cast_ne_zero (d : Decimal) : (d.denominator : ℚ) ≠ 0 :=
  Nat.cast_ne_zero.mpr (Nat.ne_of_gt d.denominator_pos)

private theorem toRat_eq_div (d : Decimal) : d.toRat = d.numerator / d.denominator := by
  have hten : (10 : ℚ) ≠ 0 := by decide
  have hpow (k : Nat) : ((Nat.pow 10 k : Nat) : ℚ) = 10 ^ (k : Int) := by
    rw [Rat.zpow_natCast]
    exact Nat.cast_pow 10 k
  have hexponent : (d.exponent.toNat : Int) = d.exponent + (-d.exponent).toNat := by omega
  rw [eq_div_iff d.denominator_cast_ne_zero]
  calc d.toRat * d.denominator
      = d.coefficient * (10 ^ d.exponent * 10 ^ ((-d.exponent).toNat : Int)) := by
        rw [toRat, denominator, hpow, mul_assoc]
    _ = d.coefficient * 10 ^ (d.exponent.toNat : Int) := by rw [hexponent, Rat.zpow_add hten]
    _ = d.numerator := by rw [numerator, Nat.cast_mul, hpow]

private theorem SameValue.toRat_eq {a b : Decimal} (h : a.SameValue b) : a.toRat = b.toRat := by
  rw [toRat_eq_div, toRat_eq_div,
    div_eq_div_iff a.denominator_cast_ne_zero b.denominator_cast_ne_zero]
  exact_mod_cast h

end Decimal

namespace Numeral.Spelling

variable (s : Spelling)

/-- The rational number that a spelling denotes. -/
def value : ℚ :=
  (if s.negative then -1 else 1) *
    (s.whole.value + Nat.ofDigitChars 10 s.fractionDigits 0 / 10 ^ s.fractionDigits.length) *
    10 ^ s.exponent

private theorem value_eq : s.value = (if s.negative then -1 else 1) * s.decimal.toRat := by
  have hdigits : ofAsciiDigits (s.whole.text ++ s.fractionDigits) =
      10 ^ s.fractionDigits.length * s.whole.value + Nat.ofDigitChars 10 s.fractionDigits 0 := by
    rw [ofAsciiDigits_eq, Nat.ofDigitChars_append, Nat.ofDigitChars_eq_ofDigitChars_zero,
      Digits.value]
  rw [value, decimal, Decimal.toRat, hdigits, Rat.zpow_add (by decide), Rat.zpow_neg,
    Rat.zpow_natCast]
  push_cast
  field_simp

private theorem value_ofInt (n : Int) : (ofInt n).value = n := by
  have hsign : (if n < 0 then -1 else 1) * (n.natAbs : Int) = n := by
    split <;> omega
  calc (ofInt n).value
      = (if n < 0 then -1 else 1) * (n.natAbs : ℚ) := by
        simp [value, ofInt, fractionDigits, Digits.optional, exponent, Digits.value_ofNat]
    _ = ((if n < 0 then -1 else 1) * (n.natAbs : Int) : Int) := by
        rw [Int.cast_mul, Int.cast_natCast, Int.cast_ite, Int.cast_neg, Int.cast_one]
    _ = n := by rw [hsign]

/-- What a spelt number becomes when it is written out: its sign, and digits on both sides of a
point that denote the same rational number. -/
def WrittenOut (t : Text) : Prop :=
  ∃ whole fraction : Digits,
    t = Double.signed s.negative (whole.text ++ '.' :: fraction.text) ∧
      (ofParts s.negative whole fraction).value = s.value

/-- Positional notation writes a spelt number out. -/
theorem writtenOut_positional : s.WrittenOut (Double.signed s.negative s.decimal.positional) := by
  obtain ⟨whole, fraction, htext, hwhole, hfraction, hvalue, -⟩ := s.decimal.exists_positional_eq
  refine ⟨⟨whole, hwhole⟩, ⟨fraction, hfraction⟩, by rw [htext], ?_⟩
  rw [value_eq, decimal_ofParts, hvalue.toRat_eq, value_eq s]
  rfl

end Numeral.Spelling

/-! ## Literals -/

namespace Value

/-- A finite double is shown as a spelt number that is read as the double, sign included. -/
theorem exists_spelling_float (negative : Bool) (x : Magnitude) :
    ∃ s : Numeral.Spelling, Double.ofDecimal s.negative s.decimal = .finite negative x ∧
      shown? (.float (.finite negative x)) = some s.text := by
  obtain ⟨s, hnegative, htext, hrank, -⟩ := Double.exists_spelling negative x
  refine ⟨s, ?_, ?_⟩
  · rw [hnegative, Literal.ofDecimal_of_nearestRank hrank]
  · rw [htext]
    rfl

/-- An integer with a text is shown as a spelt number that denotes it. -/
theorem exists_spelling_int {n : Int} (h : (toAsciiDigits n.natAbs).length ≤ digitLimit) :
    ∃ s : Numeral.Spelling, s.value = n ∧ shown? (.int n) = some s.text := by
  refine ⟨.ofInt n, Numeral.Spelling.value_ofInt n, ?_⟩
  change integerText? n = _
  rw [integerText?, if_pos h, Numeral.Spelling.text_ofInt]

/-- A value that is shown as a spelt number is written out as the number that is spelt. -/
theorem exists_plainNumber? {v : Value} {s : Numeral.Spelling} (h : v.shown? = some s.text) :
    ∃ t, v.plainNumber? = some t ∧ s.WrittenOut t := by
  refine ⟨_, ?_, s.writtenOut_positional⟩
  rw [plainNumber?, h, Option.bind_some, s.writeOut?_text]

end Value

/-- Numbers are printed exactly under the kind `float`. However many digits a spelt number has and
however large its exponent is, it is written out as its sign and digits on both sides of a point
that denote the same rational number. A literal whose value is shown as a spelt number is printed as
that number written out. Every finite double is shown as a spelt number that is read as the double,
sign included, and every integer of at most `digitLimit` digits as a spelt number that denotes it. -/
theorem Literal.floats_printed_exactly :
    (∀ s : Numeral.Spelling, ∃ t, Numeral.writeOut? s.text = some t ∧ s.WrittenOut t) ∧
      (∀ (v : Value) (s : Numeral.Spelling), v.shown? = some s.text →
        ∃ t, print? ⟨.float, v⟩ = some t ∧ s.WrittenOut t) ∧
      (∀ (negative : Bool) (x : Magnitude), ∃ s : Numeral.Spelling,
        Double.ofDecimal s.negative s.decimal = .finite negative x ∧
          Value.shown? (.float (.finite negative x)) = some s.text) ∧
      ∀ n : Int, (toAsciiDigits n.natAbs).length ≤ digitLimit →
        ∃ s : Numeral.Spelling, s.value = n ∧ Value.shown? (.int n) = some s.text := by
  refine ⟨fun s ↦ ?_, fun v s h ↦ Value.exists_plainNumber? h, Value.exists_spelling_float,
    fun n h ↦ Value.exists_spelling_int h⟩
  exact ⟨_, s.writeOut?_text, s.writtenOut_positional⟩

/-- The spelling `-1.25e-07`. -/
def Numeral.tinySpelling : Numeral.Spelling where
  negative := true
  whole := ⟨['1'], rfl⟩
  fraction := some ⟨['2', '5'], rfl⟩
  power := some (true, ⟨['0', '7'], rfl⟩)

/-- A double that is shown with an exponent is printed exactly, and an integer with as many digits
as any that has a text is shown as a spelt number. -/
theorem Literal.floats_printed_exactly_tiny :
    (Value.float (.ofDecimal true ⟨125, -9⟩)).shown? = some Numeral.tinySpelling.text ∧
      (∃ t, print? ⟨.float, .float (.ofDecimal true ⟨125, -9⟩)⟩ = some t ∧
        Numeral.tinySpelling.WrittenOut t) ∧
      (toAsciiDigits (-(10 : Int) ^ 4299).natAbs).length ≤ digitLimit ∧
      ∃ s : Numeral.Spelling, s.value = ((-(10 : Int) ^ 4299 : Int) : ℚ) ∧
        Value.shown? (.int (-(10 : Int) ^ 4299)) = some s.text := by
  have hshown : (Value.float (.ofDecimal true ⟨125, -9⟩)).shown? =
      some Numeral.tinySpelling.text := by decide +kernel
  have hlength {k limit : Nat} (h : k < limit) :
      (toAsciiDigits (-(10 : Int) ^ k).natAbs).length ≤ limit := by
    rw [Int.natAbs_neg, Int.natAbs_pow, toAsciiDigits,
      Nat.length_toDigits_le_iff (by decide) (by omega)]
    exact Nat.pow_lt_pow_right (by decide) h
  have hlongest : (toAsciiDigits (-(10 : Int) ^ 4299).natAbs).length ≤ digitLimit :=
    hlength (by decide)
  obtain ⟨-, hprint, -, hint⟩ := floats_printed_exactly
  exact ⟨hshown, hprint _ _ hshown, hlongest, hint _ hlongest⟩

end Lilac
