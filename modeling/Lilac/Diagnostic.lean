import Lilac.Function
import Lilac.Line

/-!
# Diagnostics

A function violates its header if it has no name, or if the arguments of one of its cases are not
the inputs of the header. Only the first violation of a function counts. A diagnostic is a violation
or a structural fault as it is reported, with its place where that is known.

Specification: `SPEC_FULL.md`, sections 3 and 4.5.
-/

namespace Lilac

/-- How serious a diagnostic is. Follows `Severity`. -/
inductive Severity where
  | error
  | warning
  | information
  deriving DecidableEq, Repr

/-- The word for a severity. -/
def Severity.name : Severity → String
  | .error => "error"
  | .warning => "warning"
  | .information => "information"

/-- A reported problem. Follows `Diagnostic`. -/
structure Diagnostic where
  severity : Severity
  message : String
  /-- The number of the case the problem is in, counted from 0. -/
  caseIndex : Option Nat
  span : Option Span
  deriving DecidableEq, Repr

/-- How a function can contradict its own header. -/
inductive Violation where
  /-- The function has no name. -/
  | emptyName
  /-- A case has more or fewer arguments than the header has inputs. -/
  | argumentCount (case : Nat)
  /-- An argument of a case is not the input at its position. -/
  | argument (position case : Nat)
  deriving DecidableEq, Repr

namespace Violation

/-- The words for a violation. -/
def message : Violation → String
  | .emptyName => "Function name cannot be empty"
  | .argumentCount i =>
    "Number of arguments in case " ++ natString i ++ " does not match function header"
  | .argument j i =>
    "Argument " ++ natString j ++ " in case " ++ natString i ++ " does not match function header"

/-- The case a violation is in. -/
def caseIndex : Violation → Option Nat
  | .emptyName => none
  | .argumentCount i => some i
  | .argument _ i => some i

/-- The violation as a diagnostic. -/
def toDiagnostic (v : Violation) (span : Option Span) : Diagnostic :=
  ⟨.error, v.message, v.caseIndex, span⟩

end Violation

/-- The first position, counted from `position`, at which two lists differ while both last. -/
def firstDifference (position : Nat) : List Text → List Text → Option Nat
  | x :: xs, y :: ys => if x = y then firstDifference (position + 1) xs ys else some position
  | _, _ => none

namespace Case

/-- The violation of the case with the given number against the inputs of its header. -/
def violation? (inputs : List Text) (index : Nat) (c : Case) : Option Violation :=
  if c.arguments.length ≠ inputs.length then some (.argumentCount index)
  else (firstDifference 0 c.arguments inputs).map (.argument · index)

/-- The first violation among cases numbered from `index`. -/
def firstViolation? (inputs : List Text) (index : Nat) : List Case → Option Violation
  | [] => none
  | c :: rest => c.violation? inputs index <|> firstViolation? inputs (index + 1) rest

end Case

namespace Function

/-- The first violation of a function. -/
def violation? (f : Function) : Option Violation :=
  if f.header.name = [] then some .emptyName
  else Case.firstViolation? f.header.inputs 0 f.cases

/-- The diagnostic of a function by itself, which has no place. Follows `diagnostic`. -/
def diagnostic? (f : Function) : Option Diagnostic := f.violation?.map (·.toDiagnostic none)

end Function

end Lilac
