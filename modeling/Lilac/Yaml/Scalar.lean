import Lilac.Number.Decimal
import Lilac.Yaml.Fault
import Lilac.Yaml.Timestamp

/-!
# The meaning of plain scalars

A plain scalar of a YAML 1.1 document is null, a truth value, an integer, a double or a timestamp if
it has the form of one, and a string otherwise. Doubles and timestamps are recognised and their
values are not kept; still there must be such a value. Underscores in numbers are ignored; integers
are written in base two, eight, ten, sixteen or sixty.
-/

namespace Lilac

namespace Yaml

/-- What a plain scalar stands for. -/
inductive Scalar where
  | null
  | bool (value : Bool)
  | int (value : Int)
  /-- A double or a timestamp. -/
  | other
  /-- The mark `<<` of a mapping to be merged. -/
  | merge
  /-- The mark `=` of a default value. -/
  | default
  | str (text : Text)
  deriving DecidableEq, Repr

namespace Scalar

private def nullWords : List String := ["", "~", "null", "Null", "NULL"]

private def trueWords : List String :=
  ["yes", "Yes", "YES", "true", "True", "TRUE", "on", "On", "ON"]

private def falseWords : List String :=
  ["no", "No", "NO", "false", "False", "FALSE", "off", "Off", "OFF"]

private def isOneOf (words : List String) (t : Text) : Bool := words.any (·.toList = t)

private def isDigitOf (base : Nat) (c : Char) : Bool := isAsciiDigit c && asciiDigitValue c < base

/-- Whether a character is a hexadecimal digit. -/
def isHexDigit (c : Char) : Bool :=
  isAsciiDigit c || ('a' ≤ c && c ≤ 'f') || ('A' ≤ c && c ≤ 'F')

private def hexDigitValue (c : Char) : Nat :=
  if isAsciiDigit c then asciiDigitValue c
  else if 'a' ≤ c then c.toNat - 'a'.toNat + 10
  else c.toNat - 'A'.toNat + 10

private def isRun (test : Char → Bool) (t : Text) : Bool :=
  !t.isEmpty && t.all fun c ↦ test c || c = '_'

/-- Whether a text is a digit that satisfies a test, and then digits and underscores. -/
private def isNumber (first : Char → Bool) : Text → Bool
  | [] => false
  | c :: t => first c && t.all fun c ↦ isAsciiDigit c || c = '_'

private def isPositiveDigit (c : Char) : Bool := isAsciiDigit c && c ≠ '0'

/-- The number that digits denote in a base; underscores are ignored. -/
def ofDigits (base : Nat) (t : Text) : Nat :=
  (t.filter (· ≠ '_')).foldl (fun n c ↦ base * n + hexDigitValue c) 0

private def signed (negative : Bool) (n : Nat) : Scalar := .int (if negative then -(n : Int) else n)

/-- An integer in base two or sixteen, which must have digits beside its underscores. -/
private def binary (base : Nat) (negative : Bool) (t : Text) : Except ValueFault Scalar :=
  if t.all (· = '_') then .error (.noDigits base) else .ok (signed negative (ofDigits base t))

/-- A decimal integer, if it has not too many digits. -/
private def decimal (negative : Bool) (t : Text) : Except ValueFault Scalar :=
  let digits := t.filter (· ≠ '_')
  if digitLimit < digits.length then .error (.hugeInteger digits.length)
  else .ok (signed negative (ofDigits 10 digits))

private def isSixtieth : Text → Bool
  | [c] => isAsciiDigit c
  | [c, d] => isDigitOf 6 c && isAsciiDigit d
  | _ => false

/-- An integer in base sixty, place by place, if the first place has not too many digits. -/
private def sexagesimal (negative : Bool) (first : Text) (places : List Text) :
    Except ValueFault Scalar :=
  let digits := first.filter (· ≠ '_')
  if digitLimit < digits.length then .error (.hugeInteger digits.length)
  else .ok (signed negative ((first :: places).foldl (fun n p ↦ 60 * n + ofDigits 10 p) 0))

/-- The integer that a text has the form of. -/
def integer? (t : Text) : Option (Except ValueFault Scalar) :=
  let (negative, body) := takeSign t
  match body with
  | ['0'] => some (.ok (.int 0))
  | '0' :: 'b' :: digits =>
    if isRun (isDigitOf 2) digits then some (binary 2 negative digits) else none
  | '0' :: 'x' :: digits =>
    if isRun isHexDigit digits then some (binary 16 negative digits) else none
  | '0' :: digits =>
    if isRun (isDigitOf 8) digits then some (.ok (signed negative (ofDigits 8 digits))) else none
  | body =>
    match Text.pieces ':' body with
    | first :: places =>
      if isNumber isPositiveDigit first && places.all isSixtieth then
        some (if places = [] then decimal negative first else sexagesimal negative first places)
      else none
    | [] => none

/-- Whether a text is empty or an exponent: a letter, a sign and digits. -/
def isExponent : Text → Bool
  | [] => true
  | e :: sign :: digits =>
    (e = 'e' || e = 'E') && (sign = '-' || sign = '+') && !digits.isEmpty
      && digits.all isAsciiDigit
  | _ => false

/-- Whether a text is digits and underscores, perhaps none, and perhaps an exponent after them. -/
private def isFraction (t : Text) : Bool :=
  isExponent (t.dropWhile fun c ↦ isAsciiDigit c || c = '_')

/-- Whether a text has the form of a double. -/
def isFloat (t : Text) : Bool :=
  let body := (takeSign t).2
  let whole := body.takeWhile (· ≠ '.')
  match body.dropWhile (· ≠ '.') with
  | [] => false
  | _ :: fraction =>
    if whole.isEmpty then
      isOneOf ["inf", "Inf", "INF"] fraction
        || (body = t && (isOneOf ["nan", "NaN", "NAN"] fraction
          || (fraction.head?.any isAsciiDigit && isFraction fraction)))
    else if isNumber isAsciiDigit whole then isFraction fraction
    else
      match Text.pieces ':' whole with
      | first :: places =>
        isNumber isAsciiDigit first && !places.isEmpty && places.all isSixtieth
          && fraction.all fun c ↦ isAsciiDigit c || c = '_'
      | [] => false

/-- The largest number of places of a double in base sixty: the next power of sixty is greater than
all finite doubles. -/
def placeLimit : Nat := 174

/-- A double; its value is not kept. -/
def double (t : Text) : Except ValueFault Scalar :=
  if placeLimit < (Text.pieces ':' t).length then .error .hugeDouble else .ok .other

/-- A timestamp; its value is not kept. -/
def timestamp (m : Calendar.Moment) : Except ValueFault Scalar :=
  match m.fault? with
  | some fault => .error (.moment fault)
  | none => .ok .other

/-- What a plain scalar stands for. -/
def resolve (t : Text) : Except ValueFault Scalar :=
  if isOneOf nullWords t then .ok .null
  else if isOneOf trueWords t then .ok (.bool true)
  else if isOneOf falseWords t then .ok (.bool false)
  else if isFloat t then double t
  else if t = ['<', '<'] then .ok .merge
  else if t = ['='] then .ok .default
  else
    match integer? t, Timestamp.read? t with
    | some n, _ => n
    | none, some m => timestamp m
    | none, none => .ok (.str t)

end Scalar

end Yaml

end Lilac
