import Lilac.Crash

/-!
# YAML

Settings are written in YAML. What a text stands for is for a reader to say, which the program is
given: it answers with a value, refuses a text that is no YAML and explains why, or raises another
exception, as for an integer with more digits than it reads. Nothing is assumed of a reader beyond
that. Strings have no surrogates in them, so an escape of one in a text is left out of account.

Specification: `SPEC_FULL.md`, on configuration.
-/

namespace Lilac

namespace Yaml

/-- The value of a YAML document, as far as settings tell values apart. -/
inductive Value where
  | null
  | bool (value : Bool)
  | int (value : Int)
  /-- A value of another kind, such as a double or a timestamp. -/
  | other
  | str (text : Text)
  | list (items : List Value)
  | map (entries : List (Value × Value))
  deriving Repr

/-- Why a text has no value. -/
inductive Refusal where
  /-- The text is no YAML. -/
  | malformed (explanation : String)
  /-- Reading the text raises an exception of another kind. -/
  | raised (exception : Exception)
  deriving DecidableEq, Repr

/-- What gives YAML texts their values. -/
abbrev Reader := Text → Except Refusal Value

/-- The entry of a mapping with a string as its key; of several, the last. -/
def Value.entry? (key : Text) (entries : List (Value × Value)) : Option Value :=
  entries.foldl (fun found (k, v) ↦
    match k with
    | .str t => if t = key then some v else found
    | _ => found) none

end Yaml

end Lilac
