import Lilac.Number.Reader
import Lilac.Text.Quoted

/-!
# Scalar values

The values a literal or a field of plain data can hold, with their display text and their truth
value. A boolean, an integer and a double are never the same value, even where they denote the same
number. Integers that are too long to be read have no text either.
-/

namespace Lilac

/-- A scalar value. -/
inductive Value where
  /-- A truth value. -/
  | bool (value : Bool)
  /-- An integer of any size. -/
  | int (value : Int)
  /-- A double-precision number. -/
  | float (value : Double)
  /-- A string. -/
  | str (value : Text)
  deriving DecidableEq, Repr

namespace Value

/-- The text of an integer of at most `digitLimit` digits; a longer integer has none. -/
def integerText? (n : Int) : Option Text :=
  if (toAsciiDigits n.natAbs).length ≤ digitLimit then some (integerText n) else none

/-- How a value is shown where any scalar is allowed: a string as it is, a double in its shortest
form, truth values capitalised. -/
def display? : Value → Option Text
  | .bool true => some "True".toList
  | .bool false => some "False".toList
  | .int n => integerText? n
  | .float x => some x.text
  | .str s => some s

/-- Whether a value counts as true: it is neither false nor a zero nor the empty string. -/
def truth : Value → Bool
  | .bool b => b
  | .int n => n ≠ 0
  | .float x => !x.isZero
  | .str s => !s.isEmpty

/-- How a value is shown where it must be told from a string that looks like it: as it is
displayed, but strings are quoted. -/
def shown? : Value → Option Text
  | .str s => some s.quoted
  | v => v.display?

/-- The value as it is shown, rewritten without an exponent and with a point; a value that is not
shown as a number has no such form. -/
def plainNumber? (v : Value) : Option Text := v.shown?.bind Numeral.writeOut?

end Value

end Lilac
