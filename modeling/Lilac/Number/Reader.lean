import Lilac.Number.Shortest

/-!
# Reading numbers

Integers and decimals in the wide notation of settings, options and plain data: blanks around the
number, a sign, underscores between digits. A decimal is read exactly, as a `Numeral`; rounding it
gives the double that the text is read as, and `writeOut?` writes it without an exponent. The
literals of the language have a narrower grammar of their own.
-/

namespace Lilac

/-- Whether a character may stand around a number: a blank, but no information separator. -/
def isNumberBlank (c : Char) : Bool := isBlank c && !(0x1c ≤ c.toNat && c.toNat ≤ 0x1f)

/-- The text without what may stand around a number. -/
def trimNumber (t : Text) : Text :=
  ((t.dropWhile isNumberBlank).reverse.dropWhile isNumberBlank).reverse

/-- The values of the digits of a number. Any script's digits count, and a single underscore may
stand between two digits. -/
def digitValues? : Text → Option (List Nat)
  | [] => none
  | [c] => (digitValue? c).map ([·])
  | c :: '_' :: t => do
    let d ← digitValue? c
    let rest ← digitValues? t
    some (d :: rest)
  | c :: t => do
    let d ← digitValue? c
    let rest ← digitValues? t
    some (d :: rest)

/-- The number denoted by digit values in base ten. -/
def ofDigitValues (digits : List Nat) : Nat := digits.foldl (fun n d ↦ 10 * n + d) 0

/-- Reads an integer with blanks around it, a sign and single underscores between digits. -/
def readInteger? (t : Text) : Option Int := do
  let (negative, body) := takeSign (trimNumber t)
  let digits ← digitValues? body
  if digits.length ≤ digitLimit then
    some (if negative then -(ofDigitValues digits : Int) else ofDigitValues digits)
  else none

/-- A number as a text spells it, before any rounding. -/
inductive Numeral where
  /-- A decimal with a sign; zero has two signs. -/
  | finite (negative : Bool) (decimal : Decimal)
  /-- An infinity. -/
  | infinite (negative : Bool)
  /-- Not a number. -/
  | nan
  deriving DecidableEq, Repr

namespace Numeral

/-- Digits that may be absent. -/
def digitsOrNone? (t : Text) : Option (List Nat) := if t.isEmpty then some [] else digitValues? t

/-- Reads digits with an optional point among them. -/
def mantissa? (t : Text) : Option Decimal :=
  let whole := t.takeWhile (· ≠ '.')
  let fraction := (t.dropWhile (· ≠ '.')).drop 1
  if whole.isEmpty && fraction.isEmpty then none
  else do
    let w ← digitsOrNone? whole
    let f ← digitsOrNone? fraction
    some ⟨ofDigitValues (w ++ f), -f.length⟩

/-- Reads the power of ten behind a mantissa: a letter, an optional sign and digits. Where nothing
is left it is zero. -/
def power? : Text → Option Int
  | [] => some 0
  | _ :: t => do
    let (down, digits) := takeSign t
    let n := ofDigitValues (← digitValues? digits)
    some (if down then -(n : Int) else n)

/-- Reads a number in decimal notation, with an optional sign and exponent, or one of the words
for the infinities and for not a number. -/
def read? (t : Text) : Option Numeral :=
  let (negative, body) := takeSign (trimNumber t)
  let body := body.map Char.toLower
  if body = "inf".toList ∨ body = "infinity".toList then some (.infinite negative)
  else if body = "nan".toList then some .nan
  else do
    let m ← mantissa? (body.takeWhile (· ≠ 'e'))
    let power ← power? (body.dropWhile (· ≠ 'e'))
    some (.finite negative ⟨m.coefficient, m.exponent + power⟩)

/-- The number without an exponent, with a point and at least one digit after it. -/
def plain : Numeral → Text
  | .finite negative d => Double.signed negative d.positional
  | .infinite negative => Double.signed negative "Infinity.0".toList
  | .nan => "NaN.0".toList

/-- The text of a number rewritten without an exponent; other texts have no such form. -/
def writeOut? (t : Text) : Option Text := (read? t).map plain

end Numeral

namespace Double

/-- The largest power of ten, up or down, that the reader computes with; beyond it every nonzero
decimal is read as an infinity or as zero. -/
def powerLimit : Int := 400

/-- The double nearest to a decimal, without computing powers of ten that no finite double needs. -/
def ofBoundedDecimal (negative : Bool) (d : Decimal) : Double :=
  if d.coefficient = 0 then .finite negative .zero
  else if powerLimit < d.leadingExponent then .infinite negative
  else if d.leadingExponent < -powerLimit then .finite negative .zero
  else ofDecimal negative d

/-- The double nearest to a number. -/
def ofNumeral : Numeral → Double
  | .finite negative d => ofBoundedDecimal negative d
  | .infinite negative => .infinite negative
  | .nan => .nan

/-- Reads a double in decimal notation, with an optional sign and exponent, or one of the words
for the infinities and for not a number. -/
def read? (t : Text) : Option Double := (Numeral.read? t).map ofNumeral

end Double

end Lilac
