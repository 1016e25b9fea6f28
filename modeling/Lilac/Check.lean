import Lilac.Diagnostic
import Lilac.Document.Assembly

/-!
# Checking documents

The diagnostics of a document are its structural faults and the first violation of each function, a
violation being placed at the header or at the case it is in. They are listed by position, those at
one position in the order they were found, and cut off at a limit.

Specification: `SPEC_FULL.md`, section 4.5.
-/

namespace Lilac

namespace Diagnostic

/-- The position a diagnostic is listed by; one without a place comes at line 0, column 0. Follows
`_position`. -/
def position (d : Diagnostic) : Int × Int :=
  match d.span with
  | some s => (s.line, s.column)
  | none => (0, 0)

/-- Whether a diagnostic may be listed before another: its position is not a later one. -/
def notAfter (a b : Diagnostic) : Bool :=
  a.position.1 < b.position.1
    || (a.position.1 = b.position.1 && a.position.2 ≤ b.position.2)

end Diagnostic

/-- The first `limit` elements of a list; a negative limit counts elements from the end that are
left out. -/
def takeLimit {α : Type} (limit : Int) (xs : List α) : List α :=
  if 0 ≤ limit then xs.take limit.toNat else xs.take (xs.length - limit.natAbs)

namespace Issue

/-- A structural fault as a diagnostic. -/
def toDiagnostic (i : Issue (Option Span)) : Diagnostic := ⟨.error, i.fault.message, none, i.place⟩

end Issue

namespace Definition

/-- Where a violation of a defined function is placed; `none` if it is in a case that has no
place. -/
def placeOf? (d : Definition (Option Span)) (v : Violation) : Option (Option Span) :=
  match v.caseIndex with
  | none => some d.headerAt
  | some i => d.casesAt[i]?

/-- The diagnostic of a definition, if its function has a violation; the outer `none` says that the
violation is in a case without a place. -/
def diagnostic? (d : Definition (Option Span)) : Option (Option Diagnostic) :=
  match d.function.violation? with
  | none => some none
  | some v => (d.placeOf? v).map fun span ↦ some (v.toDiagnostic span)

end Definition

namespace Document

/-- All diagnostics of a document in the order they are found; `none` if a violation is in a case
without a place. -/
def diagnostics? (d : Document (Option Span)) : Option (List Diagnostic) := do
  let violations ← d.definitions.mapM (·.diagnostic?)
  some (d.issues.map (·.toDiagnostic) ++ violations.reduceOption)

/-- The diagnostics of a document by position, cut off at a limit; `none` if a violation is in a
case without a place. Follows `check_document`. -/
def check? (limit : Int) (d : Document (Option Span)) : Option (List Diagnostic) :=
  d.diagnostics?.map fun found ↦ takeLimit limit (found.mergeSort Diagnostic.notAfter)

/-- The diagnostics of a document whose parts all have places. -/
def check (limit : Int) (d : Document Span) : List Diagnostic :=
  ((d.mapPlaces some).check? limit).getD []

end Document

end Lilac
