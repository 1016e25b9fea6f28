import Lilac.Text.Basic
import Lilac.Text.Printable

/-!
# Quoted names

How a name is shown inside a message: between apostrophes, or between double quotes if it holds an
apostrophe and no double quote. Backslashes, the quote in use and characters that cannot be printed
are escaped.
-/

namespace Lilac

namespace Text

/-- The last `width` hexadecimal digits of a number. -/
private def hexDigits : Nat → Nat → Text
  | 0, _ => []
  | width + 1, n => hexDigits width (n / 16) ++ [Nat.digitChar (n % 16)]

/-- A character of a quoted name. -/
def quotedChar (quote c : Char) : Text :=
  if c = quote ∨ c = '\\' then ['\\', c]
  else if c = '\n' then ['\\', 'n']
  else if c = '\r' then ['\\', 'r']
  else if c = '\t' then ['\\', 't']
  else if isPrintable c then [c]
  else if c.toNat < 0x100 then '\\' :: 'x' :: hexDigits 2 c.toNat
  else if c.toNat < 0x10000 then '\\' :: 'u' :: hexDigits 4 c.toNat
  else '\\' :: 'U' :: hexDigits 8 c.toNat

private def quoteFor (t : Text) : Char := if '\'' ∈ t ∧ '"' ∉ t then '"' else '\''

/-- A name as it is shown inside a message. -/
def quoted (t : Text) : Text := quoteFor t :: t.flatMap (quotedChar (quoteFor t)) ++ [quoteFor t]

end Text

end Lilac
