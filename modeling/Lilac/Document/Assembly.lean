import Lilac.Document

/-!
# Assembling documents

Lines are taken one by one. Between two lines there is at most one pending function: the last header
with the cases that followed it. Every line changes what is pending and may add a finished function
or a fault to the document, so a document is the concatenation of what its lines add. A line that
fits nowhere is recorded as a fault and skipped.

Specification: `SPEC_FULL.md`, section 7.
-/

namespace Lilac

/-- A function whose cases are still being collected. Follows `_PendingFunction`. -/
structure Pending where
  /-- The header, or `none` if it could not be read; such a function is dropped in the end. -/
  header : Option Header
  headerAt : Span
  /-- The cases with their places, the latest first. -/
  cases : List (Case × Span)
  /-- Whether its opening brace has been seen. -/
  isOpen : Bool
  deriving DecidableEq, Repr

namespace Pending

/-- The document of a pending function that is complete: its definition, if its header could be
read. Follows `_finish`. -/
def finish (p : Pending) : Document Span :=
  match p.header with
  | some h =>
    let cases := p.cases.reverse
    ⟨[⟨⟨h, cases.map (·.1)⟩, p.headerAt, cases.map (·.2)⟩], []⟩
  | none => .empty

end Pending

namespace Document

/-- What a pending function adds when the next header comes. -/
def beforeHeader (headerAt : Span) : Option Pending → Document Span
  | none => .empty
  | some p => (if p.isOpen then .fault .unclosedBeforeHeader headerAt else .empty) ++ p.finish

/-- What a pending function adds when the text ends. -/
def atEnd : Option Pending → Document Span
  | none => .empty
  | some p => (if p.isOpen then .fault .unclosedAtEnd p.headerAt else .empty) ++ p.finish

/-- Starts a function at a header line. Follows `_on_header`. -/
def onHeader (pending : Option Pending) (line : Line) : Option Pending × Document Span :=
  let header := Header.parse? line.text
  (some ⟨header, line.span, [], false⟩,
    beforeHeader line.span pending
      ++ if header = none then .fault .malformedHeader line.span else .empty)

/-- Opens the pending function, which must have neither a brace nor a case yet. Follows
`_on_open`. -/
def onOpening (pending : Option Pending) (line : Line) : Option Pending × Document Span :=
  match pending with
  | none => (none, .fault .openingWithoutHeader line.span)
  | some p =>
    if p.isOpen ∨ p.cases ≠ [] then (some p, .fault .unexpectedOpening line.span)
    else (some { p with isOpen := true }, .empty)

/-- Completes the pending function, which must be open. Follows `_on_close`. -/
def onClosing (pending : Option Pending) (line : Line) : Option Pending × Document Span :=
  match pending with
  | none => (none, .fault .unmatchedClosing line.span)
  | some p =>
    if p.isOpen then (none, p.finish) else (some p, .fault .unmatchedClosing line.span)

/-- Adds a case to the pending function. Follows `_on_case`. -/
def onCase (pending : Option Pending) (line : Line) : Option Pending × Document Span :=
  match pending with
  | none => (none, .fault .caseOutsideFunction line.span)
  | some p =>
    match Case.parse? line.text with
    | none => (some p, .fault .malformedCase line.span)
    | some c => (some { p with cases := (c, line.span) :: p.cases }, .empty)

/-- What is pending after a line, and what the line adds to the document. -/
def step (pending : Option Pending) (line : Line) : Option Pending × Document Span :=
  match line.kind with
  | .header => onHeader pending line
  | .opening => onOpening pending line
  | .closing => onClosing pending line
  | .case => onCase pending line
  | .blank => (pending, .empty)

/-- The document that lines give after what is pending. -/
def assembleFrom (pending : Option Pending) : List Line → Document Span
  | [] => atEnd pending
  | line :: rest =>
    let (pending, added) := step pending line
    added ++ assembleFrom pending rest

/-- The document that lines give. Follows `build`. -/
def assemble (lines : List Line) : Document Span := assembleFrom none lines

/-- The document of a source text. Follows `parse_document`. -/
def parse (source : Text) : Document Span := assemble (Line.scan source)

end Document

end Lilac
