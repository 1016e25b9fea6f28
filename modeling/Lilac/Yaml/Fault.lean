import Lilac.Calendar
import Lilac.Yaml

/-!
# Faults of YAML texts

A text that is not well formed is told apart from one that stands for a value nobody can hold: a
number with too many digits, a day that the calendar does not have, a character that does not exist,
collections in collections without end.
-/

namespace Lilac

namespace Yaml

/-- Why something that is written correctly has no value. -/
inductive ValueFault where
  /-- A decimal integer has more digits than are read. -/
  | hugeInteger (digits : Nat)
  /-- An integer in base two or sixteen has no digits. -/
  | noDigits (base : Nat)
  /-- A double in base sixty has more places than doubles reach. -/
  | hugeDouble
  /-- There is no such day or time. -/
  | moment (fault : Calendar.Fault)
  /-- An escape stands for a number that is no code point. -/
  | noCodePoint
  /-- An escape stands for a number of more than 31 bits. -/
  | hugeCode
  /-- Collections are nested deeper than they are followed. -/
  | tooDeep
  deriving DecidableEq, Repr

/-- The words for a missing value. -/
def ValueFault.message : ValueFault → String
  | .hugeInteger digits =>
    "Exceeds the limit (4300 digits) for integer string conversion: value has " ++ natString digits
      ++ " digits; use sys.set_int_max_str_digits() to increase the limit"
  | .noDigits base => "invalid literal for int() with base " ++ natString base ++ ": ''"
  | .hugeDouble => "int too large to convert to float"
  | .moment fault => fault.message
  | .noCodePoint => "chr() arg not in range(0x110000)"
  | .hugeCode => "signed integer is greater than maximum"
  | .tooDeep => "maximum recursion depth exceeded"

/-- What kind of exception a missing value is. -/
def ValueFault.kind : ValueFault → String
  | .hugeDouble | .hugeCode => "OverflowError"
  | .tooDeep => "RecursionError"
  | _ => "ValueError"

/-- Why a text has no value. -/
inductive Fault where
  /-- The text is not well formed, or a node stands where it cannot. -/
  | malformed
  /-- Something in the text has no value. -/
  | value (fault : ValueFault)
  deriving DecidableEq, Repr

/-- What is said about every text that is not well formed. -/
def explanation : String := "the text is not well formed"

/-- A fault as a reader refuses a text for it. -/
def Fault.refusal : Fault → Refusal
  | .malformed => .malformed explanation
  | .value fault => .raised ⟨fault.kind, fault.message⟩

end Yaml

end Lilac
