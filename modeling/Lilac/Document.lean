import Lilac.Function
import Lilac.Line

/-!
# Documents

A document is what a source text amounts to: the functions that could be made out, each with the
places of its parts, and the structural faults met on the way. The type of places is a parameter, so
that moving or forgetting places is a map over the document.

Specification: `SPEC_FULL.md`, section 7.
-/

namespace Lilac

/-- What can be wrong with the structure of a source text. -/
inductive Fault where
  /-- A header came while the function before it was still open. -/
  | unclosedBeforeHeader
  /-- A line looks like a header and is none. -/
  | malformedHeader
  /-- An opening brace came before any header. -/
  | openingWithoutHeader
  /-- A second opening brace, or one after the first case. -/
  | unexpectedOpening
  /-- A closing brace came while nothing was open. -/
  | unmatchedClosing
  /-- A case came before any header. -/
  | caseOutsideFunction
  /-- A line stands where a case should and is none. -/
  | malformedCase
  /-- The text ended while a function was still open. -/
  | unclosedAtEnd
  /-- Any other remark on a document that was put together by hand. -/
  | remark (text : String)
  deriving DecidableEq, Repr

/-- The words for a fault. -/
def Fault.message : Fault → String
  | .unclosedBeforeHeader => "Missing '\x7d' before next function header"
  | .malformedHeader => "Malformed function header, expected 'func name inputs -> outputs'"
  | .openingWithoutHeader => "'\x7b' without a function header"
  | .unexpectedOpening => "Unexpected '\x7b'"
  | .unmatchedClosing => "Unmatched '\x7d'"
  | .caseOutsideFunction => "Function case outside of a function"
  | .malformedCase => "Malformed function case, expected 'name(arguments) = body;'"
  | .unclosedAtEnd => "Missing '\x7d' at end of document"
  | .remark text => text

/-- A fault and its place. Follows `SyntaxIssue`. -/
structure Issue (σ : Type) where
  fault : Fault
  place : σ
  deriving DecidableEq, Repr

/-- A function with the places of its header and of its cases. Follows `FunctionDefinition`. -/
structure Definition (σ : Type) where
  function : Function
  headerAt : σ
  casesAt : List σ
  deriving DecidableEq, Repr

/-- The functions of a source text in source order, and its faults in the order they were met.
Follows `Document`. -/
structure Document (σ : Type) where
  definitions : List (Definition σ)
  issues : List (Issue σ)
  deriving DecidableEq, Repr

namespace Document

variable {σ τ : Type}

/-- The document with nothing in it. -/
def empty : Document σ := ⟨[], []⟩

/-- A document with one fault. -/
def fault (fault : Fault) (place : σ) : Document σ := ⟨[], [⟨fault, place⟩]⟩

/-- Two documents, one after the other. -/
def append (a b : Document σ) : Document σ :=
  ⟨a.definitions ++ b.definitions, a.issues ++ b.issues⟩

instance : Append (Document σ) := ⟨append⟩

/-- The functions without their places. -/
def functions (d : Document σ) : List Function := d.definitions.map (·.function)

/-- Changes every place. -/
def mapPlaces (f : σ → τ) (d : Document σ) : Document τ :=
  ⟨d.definitions.map fun x ↦ ⟨x.function, f x.headerAt, x.casesAt.map f⟩,
    d.issues.map fun x ↦ ⟨x.fault, f x.place⟩⟩

end Document

end Lilac
