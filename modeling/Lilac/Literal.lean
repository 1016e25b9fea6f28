import Lilac.Value

/-!
# Literals

A literal has a kind and a value. Reading gives a literal whose value is of its kind; literals made
from plain data may hold any scalar under any kind. The grammar has the two truth words, integers of
at most 4300 digits, decimals with a point and without an exponent, and quoted strings with
backslash escapes.

Specification: `SPEC_FULL.md`, sections 3 and 4.1.
-/

namespace Lilac

/-- The kinds of literals. Follows `LiteralType`. -/
inductive LiteralKind where
  | string
  | integer
  | float
  | boolean
  deriving DecidableEq, Repr

namespace LiteralKind

/-- The word for the kind. -/
def name : LiteralKind → Text
  | .string => "string".toList
  | .integer => "integer".toList
  | .float => "float".toList
  | .boolean => "boolean".toList

/-- The kind a word stands for. -/
def ofName? (t : Text) : Option LiteralKind :=
  [.string, .integer, .float, .boolean].find? (·.name = t)

end LiteralKind

/-- A literal of the language. Follows `Expression`. -/
structure Literal where
  kind : LiteralKind
  value : Value
  deriving DecidableEq, Repr

namespace Literal

/-- Whether a text consists of one or more ASCII digits. -/
def isDigits (t : Text) : Bool := !t.isEmpty && t.all isAsciiDigit

/-- Takes a minus sign off a text. -/
def takeMinus : Text → Bool × Text
  | '-' :: t => (true, t)
  | t => (false, t)

/-- Reads a truth word. -/
def parseBoolean? (t : Text) : Option Bool :=
  if t = ['t', 'r', 'u', 'e'] then some true
  else if t = ['f', 'a', 'l', 's', 'e'] then some false
  else none

/-- Reads an integer: an optional minus sign and up to 4300 digits. Follows `_parse_integer`. -/
def parseInteger? (t : Text) : Option Int :=
  let (negative, digits) := takeMinus t
  if isDigits digits && digits.length ≤ digitLimit then
    let n := ofAsciiDigits digits
    some (if negative then -n else n)
  else none

/-- Reads a decimal: an optional minus sign, digits, a point and digits. A number beyond all finite
doubles is refused. Follows `_parse_float`. -/
def parseFloat? (t : Text) : Option Double :=
  let (negative, body) := takeMinus t
  let whole := body.takeWhile (· ≠ '.')
  let fraction := (body.dropWhile (· ≠ '.')).drop 1
  if isDigits whole && isDigits fraction then
    let x := Double.ofDecimal negative ⟨ofAsciiDigits (whole ++ fraction), -fraction.length⟩
    if x.isFinite then some x else none
  else none

/-- The character that an escape stands for: a line feed, a tab, or the escaped character itself.
Follows `_unescape`. -/
def unescape : Char → Char
  | 'n' => '\n'
  | 't' => '\t'
  | c => c

/-- Reads the rest of a string literal after its opening quote; the closing quote must be the last
character. -/
def parseStringTail? : Text → Option Text
  | [] => none
  | ['"'] => some []
  | '\\' :: c :: t => (parseStringTail? t).map (unescape c :: ·)
  | c :: t => if c = '"' ∨ c = '\\' then none else (parseStringTail? t).map (c :: ·)

/-- Reads a string literal, quotes included. -/
def parseString? : Text → Option Text
  | '"' :: t => parseStringTail? t
  | _ => none

/-- Reads a literal that makes up the whole text. Follows `parse_expression`. -/
def parse? (t : Text) : Option Literal :=
  ((parseBoolean? t).map fun b ↦ ⟨.boolean, .bool b⟩)
    <|> ((parseInteger? t).map fun n ↦ ⟨.integer, .int n⟩)
    <|> ((parseFloat? t).map fun x ↦ ⟨.float, .float x⟩)
    <|> ((parseString? t).map fun s ↦ ⟨.string, .str s⟩)

/-- A character as it is written inside a string literal. -/
def escape : Char → Text
  | '\\' => ['\\', '\\']
  | '"' => ['\\', '"']
  | '\n' => ['\\', 'n']
  | '\t' => ['\\', 't']
  | c => [c]

/-- A string literal with the given contents. -/
def quote (s : Text) : Text := '"' :: s.flatMap escape ++ ['"']

/-- The source text of a literal. A literal of kind `float` has one only if its value is a number,
and an integer of more digits than are read has none. Follows `_format_expression`. -/
def print? (l : Literal) : Option Text :=
  match l.kind with
  | .boolean => some (if l.value.truth then ['t', 'r', 'u', 'e'] else ['f', 'a', 'l', 's', 'e'])
  | .integer => l.value.display?
  | .float => l.value.plainNumber?
  | .string => l.value.display?.map quote

end Literal

end Lilac
