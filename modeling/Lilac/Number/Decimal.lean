import Lilac.Text.Basic
import Lilac.Text.Digit

/-!
# Decimal numbers

A decimal is a coefficient and a power of ten. `positional` writes it without an exponent, with at
least one digit on each side of the point; `scientific` writes it with one digit before the point.
-/

namespace Lilac

/-- The largest number of digits of a decimal integer that is read, leading zeros included. -/
def digitLimit : Nat := 4300

/-- Takes an optional sign off a text; `true` stands for minus. -/
def takeSign : Text → Bool × Text
  | '-' :: t => (true, t)
  | '+' :: t => (false, t)
  | t => (false, t)

/-- The number `coefficient · 10 ^ exponent`. -/
structure Decimal where
  coefficient : Nat
  exponent : Int
  deriving DecidableEq, Repr

namespace Decimal

/-- The numerator of the decimal as a fraction over a power of ten. -/
def numerator (d : Decimal) : Nat := d.coefficient * Nat.pow 10 d.exponent.toNat

/-- The denominator of the decimal as a fraction over a power of ten. -/
def denominator (d : Decimal) : Nat := Nat.pow 10 (-d.exponent).toNat

/-- The digits of the coefficient. -/
def digits (d : Decimal) : Text := toAsciiDigits d.coefficient

/-- The power of ten of the leading digit. -/
def leadingExponent (d : Decimal) : Int := d.exponent + d.digits.length - 1

/-- Enough zeros in front of a text to give it a certain length. -/
def padLeft (length : Nat) (t : Text) : Text := List.replicate (length - t.length) '0' ++ t

/-- The decimal without an exponent, with at least one digit on each side of the point. -/
def positional (d : Decimal) : Text :=
  if 0 ≤ d.exponent then toAsciiDigits d.numerator ++ ['.', '0']
  else
    let places := (-d.exponent).toNat
    let digits := padLeft (places + 1) d.digits
    digits.take (digits.length - places) ++ '.' :: digits.drop (digits.length - places)

/-- The decimal with one digit before the point and a signed exponent of at least two digits. -/
def scientific (d : Decimal) : Text :=
  let fraction := d.digits.drop 1
  let power := d.leadingExponent
  d.digits.take 1 ++ (if fraction.isEmpty then [] else '.' :: fraction)
    ++ ['e', if power < 0 then '-' else '+'] ++ padLeft 2 (toAsciiDigits power.natAbs)

end Decimal

end Lilac
