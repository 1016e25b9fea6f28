import Lilac.Number.Decimal

/-!
# Double-precision numbers

The finite magnitudes of the 64-bit binary format, ordered by size, are numbered from zero without
gaps; that number is the magnitude's `rank`. A magnitude is `significand · 2 ^ scale` units of
`2 ^ -1074`, and the rank is `scale · 2 ^ 52 + significand` whether the significand is normalised or
not. Reading a decimal rounds to the nearest magnitude, ties to the even rank, with exact integer
arithmetic throughout.
-/

namespace Lilac

/-- The number of finite magnitudes. -/
def magnitudeCount : Nat := 2047 * Nat.pow 2 52

/-- The absolute value of a finite double. -/
structure Magnitude where
  rank : Nat
  rank_lt : rank < magnitudeCount
  deriving DecidableEq, Repr

namespace Magnitude

/-- The power of two of the significand's unit, counted from the smallest unit `2 ^ -1074`. -/
def scale (x : Magnitude) : Nat := x.rank / Nat.pow 2 52 - 1

/-- The integer significand. -/
def significand (x : Magnitude) : Nat := x.rank - x.scale * Nat.pow 2 52

/-- The magnitude in units of `2 ^ -1074`. -/
def units (x : Magnitude) : Nat := x.significand * Nat.pow 2 x.scale

/-- Zero. -/
def zero : Magnitude := ⟨0, by decide⟩

end Magnitude

/-- The quotient rounded to the nearest integer, a half going to the even one. -/
def roundHalfEven (n d : Nat) : Nat :=
  let quotient := n / d
  let remainder := n % d
  if 2 * remainder < d then quotient
  else if 2 * remainder > d then quotient + 1
  else quotient + quotient % 2

/-- The rank nearest to the fraction `n / d`. It may lie beyond the finite magnitudes. -/
def nearestRank (n d : Nat) : Nat :=
  let units := n * Nat.pow 2 1074
  let scale := (units / d).log2 - 52
  scale * Nat.pow 2 52 + roundHalfEven units (d * Nat.pow 2 scale)

/-- The rank nearest to a decimal. -/
def Decimal.nearestRank (d : Decimal) : Nat := Lilac.nearestRank d.numerator d.denominator

/-- A double-precision number. -/
inductive Double where
  /-- A finite number; zero has two signs. -/
  | finite (negative : Bool) (magnitude : Magnitude)
  /-- An infinity. -/
  | infinite (negative : Bool)
  /-- Not a number. -/
  | nan
  deriving DecidableEq, Repr

namespace Double

/-- The double nearest to a decimal with a sign; a decimal beyond all finite doubles gives an
infinity. -/
def ofDecimal (negative : Bool) (d : Decimal) : Double :=
  if h : d.nearestRank < magnitudeCount then .finite negative ⟨d.nearestRank, h⟩
  else .infinite negative

/-- Whether the double is neither infinite nor the result of an invalid operation. -/
def isFinite : Double → Bool
  | .finite _ _ => true
  | _ => false

/-- Whether the double is one of the two zeros. -/
def isZero : Double → Bool
  | .finite _ x => x.rank = 0
  | _ => false

end Double

end Lilac
