import Lilac.Data

/-!
# Plain data as JSON text

Data is written over several lines: every item of a list and every field of a record stands on a
line of its own, indented by two blanks for each level. Only ASCII characters are written; others
are given as UTF-16 code units in hexadecimal.
-/

namespace Lilac

namespace Json

/-- The lower-case hexadecimal digit of a number below sixteen. -/
def hexDigit (n : Nat) : Char := Nat.digitChar n

/-- A UTF-16 code unit as an escape sequence. -/
def unitEscape (n : Nat) : Text :=
  ['\\', 'u', hexDigit (n / 4096 % 16), hexDigit (n / 256 % 16), hexDigit (n / 16 % 16),
    hexDigit (n % 16)]

/-- A character as it is written inside a JSON string. -/
def escape (c : Char) : Text :=
  match c with
  | '"' => ['\\', '"']
  | '\\' => ['\\', '\\']
  | '\n' => ['\\', 'n']
  | '\r' => ['\\', 'r']
  | '\t' => ['\\', 't']
  | '\x08' => ['\\', 'b']
  | '\x0c' => ['\\', 'f']
  | c =>
    let n := c.toNat
    if 0x20 ≤ n ∧ n < 0x7f then [c]
    else if n < 0x10000 then unitEscape n
    else
      unitEscape (0xd800 + (n - 0x10000) / 0x400) ++ unitEscape (0xdc00 + (n - 0x10000) % 0x400)

/-- A JSON string. -/
def string (t : Text) : Text := '"' :: t.flatMap escape ++ ['"']

/-- A line feed and the indentation of a level. -/
def newline (level : Nat) : Text := '\n' :: List.replicate (2 * level) ' '

/-- Items on lines of their own between two brackets; no items leave nothing between them. -/
def enclose (left right : Char) (level : Nat) (items : List Text) : Text :=
  if items = [] then [left, right]
  else
    left :: newline (level + 1) ++ Text.join (',' :: newline (level + 1)) items
      ++ newline level ++ [right]

/-- A double as a JSON number. -/
def number : Double → Text
  | .infinite negative => Double.signed negative "Infinity".toList
  | .nan => "NaN".toList
  | x => x.text

/-- A scalar as JSON. -/
def scalar : Value → Text
  | .bool true => "true".toList
  | .bool false => "false".toList
  | .int n => integerText n
  | .float x => number x
  | .str t => string t

end Json

namespace Data

mutual

/-- Data as JSON at a level of indentation. -/
def json (level : Nat) : Data → Text
  | .null => "null".toList
  | .scalar v => Json.scalar v
  | .list items => Json.enclose '[' ']' level (jsonItems (level + 1) items)
  | .record fields => Json.enclose '{' '}' level (jsonFields (level + 1) fields)

/-- The items of a list as JSON. -/
def jsonItems (level : Nat) : List Data → List Text
  | [] => []
  | d :: rest => d.json level :: jsonItems level rest

/-- The fields of a record as JSON. -/
def jsonFields (level : Nat) : List (Text × Data) → List Text
  | [] => []
  | (key, d) :: rest => (Json.string key ++ ':' :: ' ' :: d.json level) :: jsonFields level rest

end

end Data

end Lilac
