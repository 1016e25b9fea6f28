import Lilac.Number.Shortest
import Lilac.Proofs.Digits

/-!
# Reading doubles back

Rounding depends only on the number a decimal denotes, and every finite magnitude written out
exactly is read as itself. The shortest decimal of a magnitude is therefore read as that magnitude,
whichever candidate the search returns, and so is its positional text.
-/

namespace Lilac

/-! ## Rounding fractions -/

private theorem natPow_pos {base : Nat} (h : 0 < base) (k : Nat) : 0 < Nat.pow base k :=
  Nat.pow_pos h

private theorem natPow_ten (k : Nat) : Nat.pow 10 k = Nat.pow 2 k * Nat.pow 5 k :=
  Nat.mul_pow 2 5 k

private theorem roundHalfEven_mul (n d : Nat) {k : Nat} (hk : 0 < k) :
    roundHalfEven (n * k) (d * k) = roundHalfEven n d := by
  have hlt : 2 * (n % d * k) < d * k ↔ 2 * (n % d) < d := by
    rw [← Nat.mul_assoc]
    exact Nat.mul_lt_mul_right hk
  have hgt : d * k < 2 * (n % d * k) ↔ d < 2 * (n % d) := by
    rw [← Nat.mul_assoc]
    exact Nat.mul_lt_mul_right hk
  simp only [roundHalfEven, Nat.mul_div_mul_right n d hk, Nat.mul_mod_mul_right, gt_iff_lt, hlt,
    hgt]

private theorem roundHalfEven_exact (m : Nat) {d : Nat} (hd : 0 < d) :
    roundHalfEven (m * d) d = m := by
  simp only [roundHalfEven, Nat.mul_div_cancel m hd, Nat.mul_mod_left, Nat.mul_zero, if_pos hd]

/-- The nearest rank when the smallest magnitude is one part in `unit`. -/
def rankIn (unit n d : Nat) : Nat :=
  ((n * unit / d).log2 - 52) * Nat.pow 2 52
    + roundHalfEven (n * unit) (d * Nat.pow 2 ((n * unit / d).log2 - 52))

/-- The smallest magnitude is one part in `2 ^ 1074`. -/
theorem nearestRank_eq (n d : Nat) : nearestRank n d = rankIn (Nat.pow 2 1074) n d := rfl

/-- The nearest rank depends only on the ratio. -/
theorem rankIn_mul (unit n d : Nat) {k : Nat} (hk : 0 < k) :
    rankIn unit (n * k) (d * k) = rankIn unit n d := by
  rw [rankIn, Nat.mul_right_comm n k unit, Nat.mul_div_mul_right _ _ hk, Nat.mul_right_comm d k,
    roundHalfEven_mul _ _ hk, rankIn]

/-- Zero has rank zero. -/
theorem rankIn_zero (unit d : Nat) : rankIn unit 0 d = 0 := by
  rw [rankIn, Nat.zero_mul, Nat.zero_div, Nat.log2_zero, Nat.zero_sub, Nat.zero_mul, Nat.zero_add]
  simp [roundHalfEven]

private theorem nearestRank_eq_of_mul_eq {n d n' d' : Nat} (hd : 0 < d) (hd' : 0 < d')
    (h : n * d' = n' * d) : nearestRank n d = nearestRank n' d' := by
  rw [nearestRank_eq, ← rankIn_mul _ n d hd', h, Nat.mul_comm d d', rankIn_mul _ n' d' hd,
    nearestRank_eq]

namespace Decimal

/-- Two decimals denote the same number. -/
def SameValue (a b : Decimal) : Prop := a.numerator * b.denominator = b.numerator * a.denominator

/-- The denominator of a decimal is a power of ten. -/
theorem denominator_pos (d : Decimal) : 0 < d.denominator := natPow_pos (by decide) _

/-- The nearest rank depends only on the number that a decimal denotes. -/
theorem SameValue.nearestRank_eq {a b : Decimal} (h : a.SameValue b) :
    a.nearestRank = b.nearestRank :=
  nearestRank_eq_of_mul_eq a.denominator_pos b.denominator_pos h

end Decimal

/-! ## Magnitudes are read as themselves -/

namespace Magnitude

private theorem scale_mul_add_significand (x : Magnitude) :
    x.scale * Nat.pow 2 52 + x.significand = x.rank := by
  have hpow : Nat.pow 2 52 = 4503599627370496 := rfl
  rw [significand, scale, hpow]
  omega

private theorem significand_bounds (x : Magnitude) :
    x.significand < Nat.pow 2 53 ∧ (Nat.pow 2 52 ≤ x.significand ∨ x.scale = 0) := by
  have hpow : Nat.pow 2 52 = 4503599627370496 := rfl
  have hnext : Nat.pow 2 53 = 9007199254740992 := rfl
  rw [significand, scale, hpow, hnext]
  omega

/-- The scale can be told from the number of bits of the magnitude. -/
private theorem log2_units (x : Magnitude) : x.units.log2 - 52 = x.scale := by
  obtain ⟨hlt, hle⟩ : x.significand < 2 ^ 53 ∧ (2 ^ 52 ≤ x.significand ∨ x.scale = 0) :=
    x.significand_bounds
  have hunits : x.units = x.significand * 2 ^ x.scale := rfl
  by_cases hnormal : 2 ^ 52 ≤ x.significand
  · have hlog : x.units.log2 = 52 + x.scale := by
      have hpos : 0 < x.units := by
        rw [hunits]
        exact Nat.mul_pos (by omega) (Nat.two_pow_pos _)
      rw [Nat.log2_eq_iff (by omega), hunits, Nat.pow_add,
        show 52 + x.scale + 1 = 53 + x.scale by omega, Nat.pow_add]
      exact ⟨Nat.mul_le_mul_right _ hnormal,
        (Nat.mul_lt_mul_right (Nat.two_pow_pos _)).mpr hlt⟩
    omega
  · have hscale : x.scale = 0 := hle.resolve_left hnormal
    rw [hscale, Nat.pow_zero, Nat.mul_one] at hunits
    rw [hunits, hscale]
    by_cases hzero : x.significand = 0
    · rw [hzero, Nat.log2_zero]
    · have := (Nat.log2_lt hzero).mpr (Nat.lt_of_not_le hnormal)
      omega

private theorem rankIn_units (x : Magnitude) {unit : Nat} (h : 0 < unit) :
    rankIn unit x.units unit = x.rank := by
  have hexact : x.units * unit = x.significand * (unit * Nat.pow 2 x.scale) := by
    rw [units, Nat.mul_assoc, Nat.mul_comm unit]
  rw [rankIn, Nat.mul_div_cancel _ h, x.log2_units, hexact,
    roundHalfEven_exact _ (Nat.mul_pos h (natPow_pos (by decide) _)), x.scale_mul_add_significand]

/-- A magnitude written out exactly is read as itself. -/
theorem nearestRank_exactly (x : Magnitude) : x.exactly.nearestRank = x.rank := by
  have hnumerator : x.exactly.numerator = x.units * Nat.pow 5 1074 := Nat.mul_one _
  have hplaces : (-x.exactly.exponent).toNat = 1074 := rfl
  have hdenominator : x.exactly.denominator = Nat.pow 2 1074 * Nat.pow 5 1074 := by
    rw [Decimal.denominator, hplaces]
    generalize 1074 = k
    exact natPow_ten k
  rw [Decimal.nearestRank, nearestRank_eq, hnumerator, hdenominator]
  generalize 1074 = k
  rw [rankIn_mul _ _ _ (natPow_pos (by decide) k), x.rankIn_units (natPow_pos (by decide) k)]

private theorem nearestRank_of_onGrid? {x : Magnitude} {power : Int} {d : Decimal}
    (h : x.onGrid? power = some d) : d.nearestRank = x.rank := by
  simp only [onGrid?] at h
  split at h
  · next hbelow =>
    split at h
    · next hboth =>
      obtain rfl := Option.some.inj h
      exact of_decide_eq_true ((Bool.and_eq_true _ _).mp hboth).1
    · obtain rfl := Option.some.inj h
      exact of_decide_eq_true hbelow
  · split at h
    · next habove =>
      obtain rfl := Option.some.inj h
      exact of_decide_eq_true habove
    · cases h

/-- The shortest decimal of a magnitude is read as that magnitude. -/
theorem nearestRank_shortest (x : Magnitude) : x.shortest.nearestRank = x.rank := by
  unfold shortest
  split
  · next hzero =>
    rw [hzero, Decimal.nearestRank, nearestRank_eq, Decimal.numerator, Nat.zero_mul, rankIn_zero]
  · cases hfound : x.grids.findSome? x.onGrid? with
    | none => exact x.nearestRank_exactly
    | some d =>
      obtain ⟨power, -, hpower⟩ := List.exists_of_findSome?_eq_some hfound
      exact nearestRank_of_onGrid? hpower

end Magnitude

/-! ## Positional texts -/

namespace Decimal

/-- The decimal that digits on both sides of a point denote. -/
def ofParts (whole fraction : Text) : Decimal :=
  ⟨ofAsciiDigits (whole ++ fraction), -fraction.length⟩

/-- Digits padded with zeros are digits. -/
theorem isAsciiDigit_of_mem_padLeft {d : Decimal} {width : Nat} :
    ∀ c ∈ padLeft width d.digits, isAsciiDigit c = true := by
  intro c hc
  rcases List.mem_append.mp hc with hc | hc
  · rw [List.eq_of_mem_replicate hc]
    decide
  · exact isAsciiDigit_of_mem_toAsciiDigits hc

/-- Padded digits fill the width they are padded to. -/
theorem le_length_padLeft (width : Nat) (t : Text) : width ≤ (padLeft width t).length := by
  rw [padLeft, List.length_append, List.length_replicate]
  omega

/-- Digits that fill the width already are not padded. -/
theorem padLeft_eq_self {width : Nat} {t : Text} (h : width ≤ t.length) : padLeft width t = t := by
  rw [padLeft, Nat.sub_eq_zero_of_le h, List.replicate_zero, List.nil_append]

/-- Padding does not change the number that digits denote. -/
theorem ofAsciiDigits_padLeft (d : Decimal) (width : Nat) :
    ofAsciiDigits (padLeft width d.digits) = d.coefficient := by
  rw [padLeft, ofAsciiDigits_replicate_append, digits, ofAsciiDigits_toAsciiDigits]

private theorem positional_tenfold (n : Nat) :
    (⟨n * 10, -1⟩ : Decimal).positional = toAsciiDigits n ++ ['.', '0'] := by
  have hexponent : ¬(0 : Int) ≤ -1 := by decide
  have hplaces : (-(-1 : Int)).toNat = 1 := rfl
  rw [positional, if_neg hexponent, digits]
  dsimp only
  rw [hplaces]
  by_cases hzero : n = 0
  · rw [hzero]
    rfl
  · have hlength : 0 < (toAsciiDigits n).length := List.length_pos_iff.mpr (toAsciiDigits_ne_nil n)
    have hpad : padLeft (1 + 1) (toAsciiDigits n ++ ['0']) = toAsciiDigits n ++ ['0'] := by
      apply padLeft_eq_self
      rw [List.length_append, List.length_singleton]
      omega
    rw [toAsciiDigits_mul_ten (Nat.pos_of_ne_zero hzero), hpad, List.length_append,
      List.length_singleton, Nat.add_sub_cancel, List.take_left, List.drop_left]

/-- A decimal with places behind its point is made up of the digits on both sides of it. -/
private theorem exists_positional_of_neg {d : Decimal} (h : d.exponent < 0) :
    ∃ whole fraction : Text, d.positional = whole ++ '.' :: fraction ∧
      Literal.isDigits whole = true ∧ Literal.isDigits fraction = true ∧
      ofParts whole fraction = d := by
  have hplaces : (-d.exponent).toNat = -d.exponent := Int.toNat_of_nonneg (by omega)
  rw [positional, if_neg (Int.not_le.mpr h)]
  dsimp only
  generalize (-d.exponent).toNat = places at hplaces ⊢
  have hdigits : ∀ c ∈ padLeft (places + 1) d.digits, isAsciiDigit c = true :=
    isAsciiDigit_of_mem_padLeft
  have hlength := le_length_padLeft (places + 1) d.digits
  have hvalue := ofAsciiDigits_padLeft d (places + 1)
  generalize padLeft (places + 1) d.digits = digits at hdigits hlength hvalue ⊢
  have hfraction : (digits.drop (digits.length - places)).length = places := by
    rw [List.length_drop]
    omega
  refine ⟨_, _, rfl,
    Literal.isDigits_iff.mpr ⟨?_, fun c hc ↦ hdigits c (List.mem_of_mem_take hc)⟩,
    Literal.isDigits_iff.mpr ⟨?_, fun c hc ↦ hdigits c (List.mem_of_mem_drop hc)⟩, ?_⟩
  · rw [← List.length_pos_iff, List.length_take]
    omega
  · rw [← List.length_pos_iff, hfraction]
    omega
  · rw [ofParts, List.take_append_drop, hvalue, hfraction, hplaces, Int.neg_neg]

/-- A positional text has digits on both sides of its point. They denote the decimal, and what they
make up has the same positional text. -/
theorem exists_positional_eq (d : Decimal) :
    ∃ whole fraction : Text, d.positional = whole ++ '.' :: fraction ∧
      Literal.isDigits whole = true ∧ Literal.isDigits fraction = true ∧
      (ofParts whole fraction).SameValue d ∧
      (ofParts whole fraction).positional = d.positional := by
  by_cases hexponent : 0 ≤ d.exponent
  · have hparts : ofParts (toAsciiDigits d.numerator) ['0'] = ⟨d.numerator * 10, -1⟩ := by
      rw [ofParts, ofAsciiDigits_append_zero, ofAsciiDigits_toAsciiDigits]
      rfl
    have hdenominator : d.denominator = 1 := by
      rw [denominator, Int.toNat_eq_zero.mpr (by omega), Nat.pow_eq, Nat.pow_zero]
    refine ⟨toAsciiDigits d.numerator, ['0'], if_pos hexponent, Literal.isDigits_toAsciiDigits _,
      by decide, ?_, ?_⟩
    · rw [hparts, SameValue, hdenominator, Nat.mul_one]
      simp [numerator, denominator]
    · rw [hparts, positional_tenfold, positional, if_pos hexponent]
  · obtain ⟨whole, fraction, htext, hwhole, hfraction, hself⟩ :=
      exists_positional_of_neg (Int.not_le.mp hexponent)
    refine ⟨whole, fraction, htext, hwhole, hfraction, ?_, ?_⟩
    · rw [hself]
      exact rfl
    · rw [hself]

end Decimal

end Lilac
