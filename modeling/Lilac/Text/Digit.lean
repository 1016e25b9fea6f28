/-!
# Decimal digits of every script

The decimal digits of a script are ten consecutive code points, so the table holds the code point
of each zero.
-/

namespace Lilac

/-- Code points of the zeros of all scripts, ascending. -/
def zeroCodes : List Nat :=
  [0x30, 0x660, 0x6f0, 0x7c0, 0x966, 0x9e6, 0xa66, 0xae6, 0xb66, 0xbe6, 0xc66, 0xce6, 0xd66,
   0xde6, 0xe50, 0xed0, 0xf20, 0x1040, 0x1090, 0x17e0, 0x1810, 0x1946, 0x19d0, 0x1a80, 0x1a90,
   0x1b50, 0x1bb0, 0x1c40, 0x1c50, 0xa620, 0xa8d0, 0xa900, 0xa9d0, 0xa9f0, 0xaa50, 0xabf0,
   0xff10, 0x104a0, 0x10d30, 0x11066, 0x110f0, 0x11136, 0x111d0, 0x112f0, 0x11450, 0x114d0,
   0x11650, 0x116c0, 0x11730, 0x118e0, 0x11950, 0x11c50, 0x11d50, 0x11da0, 0x16a60, 0x16ac0,
   0x16b50, 0x1d7ce, 0x1d7d8, 0x1d7e2, 0x1d7ec, 0x1d7f6, 0x1e140, 0x1e2f0, 0x1e950, 0x1fbf0]

/-- The value of a decimal digit of any script. -/
def digitValue? (c : Char) : Option Nat :=
  (zeroCodes.find? fun first ↦ first ≤ c.toNat && c.toNat < first + 10).map (c.toNat - ·)

/-- Whether a character is one of the ten ASCII digits. -/
def isAsciiDigit (c : Char) : Bool := '0' ≤ c && c ≤ '9'

/-- The value of an ASCII digit. -/
def asciiDigitValue (c : Char) : Nat := c.toNat - '0'.toNat

/-- The number that a list of ASCII digits denotes in base ten, most significant digit first. -/
def ofAsciiDigits (digits : List Char) : Nat :=
  digits.foldl (fun n c ↦ 10 * n + asciiDigitValue c) 0

/-- The decimal digits of a number, most significant digit first; zero has one digit. -/
def toAsciiDigits (n : Nat) : List Char := Nat.toDigits 10 n

/-- A number as it stands in a message. -/
def natString (n : Nat) : String := String.ofList (toAsciiDigits n)

/-- An integer in base ten, with a minus sign if it is negative. -/
def integerText : Int → List Char
  | .ofNat n => toAsciiDigits n
  | .negSucc n => '-' :: toAsciiDigits (n + 1)

/-- An integer as it stands in a message. -/
def integerString (n : Int) : String := String.ofList (integerText n)

end Lilac
