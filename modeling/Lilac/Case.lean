import Lilac.Header
import Lilac.Term.Parser

/-!
# Function cases

A case binds formal arguments to a body: a name, the arguments in parentheses, an equals sign, the
body and a semicolon. The argument list ends at the first closing parenthesis that an equals sign
follows, so the arguments may hold anything but a semicolon. The body ends at the first semicolon
outside string literals, and whatever follows that semicolon is ignored. The name is not kept.

Specification: `SPEC_FULL.md`, section 4.4.
-/

namespace Lilac

/-- Formal arguments and the body they are bound in. Follows `FunctionCase`. -/
structure Case where
  arguments : List Text
  body : Term
  deriving DecidableEq, Repr

namespace Case

/-- What follows an equals sign with optional blanks in front of it. -/
def afterEquals? (t : Text) : Option Text :=
  match t.trimLeft with
  | '=' :: rest => some rest
  | _ => none

/-- Cuts a text at the first closing parenthesis that an equals sign follows, into the arguments
before it and what stands after the equals sign. No semicolon may come first. -/
def cutArguments? : Text → Option (Text × Text)
  | [] => none
  | c :: t =>
    let longer := (cutArguments? t).map fun (arguments, rest) ↦ (c :: arguments, rest)
    if c = ')' then
      match afterEquals? t with
      | some rest => some ([], rest)
      | none => longer
    else if c = ';' then none
    else longer

/-- The argument list and the text after the equals sign of a case. -/
def head? (t : Text) : Option (Text × Text) :=
  match t.takeWhile isWord, t.dropWhile isWord with
  | _ :: _, '(' :: rest => cutArguments? rest
  | _, _ => none

/-- The formal arguments in an argument list: its trimmed pieces between commas, and none if it is
blank. -/
def formals (t : Text) : List Text := if t.trim = [] then [] else t.trim.commaPieces

/-- The body in front of the first semicolon outside string literals. -/
def body? (t : Text) : Option Term := do
  let stop ← t.terminator?
  let body := Text.trim (t.take stop)
  if body = [] then none else Term.parse? body

/-- Reads a case from a line. Follows `parse_function_case`. -/
def parse? (line : Text) : Option Case := do
  let (arguments, rest) ← head? line.trim
  let body ← body? rest.trimLeft
  some ⟨formals arguments, body⟩

/-- The source text of a case of the function with the given name. Follows `format_case`. -/
def print? (name : Text) (c : Case) : Option Text := do
  let body ← c.body.print?
  some (name ++ '(' :: Text.join [',', ' '] c.arguments ++ [')', ' ', '=', ' '] ++ body ++ [';'])

end Case

end Lilac
