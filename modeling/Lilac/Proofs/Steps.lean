import Lilac.Proofs.Assembly

/-!
# What a line does

`Step` lists everything a line can do to what is pending, one constructor for each behaviour, and
`step_spec` says that the assembler does nothing else. Statements about documents are proved by
cases on `Step` and lifted to whole runs by induction over the lines; no later module looks into the
assembler itself.
-/

namespace Lilac

namespace Document

section Concatenation

variable {σ : Type}

@[simp] theorem definitions_append (a b : Document σ) :
    (a ++ b).definitions = a.definitions ++ b.definitions := rfl

@[simp] theorem definitions_empty : (empty : Document σ).definitions = [] := rfl

@[simp] theorem issues_empty : (empty : Document σ).issues = [] := rfl

@[simp] theorem definitions_fault (f : Fault) (place : σ) : (fault f place).definitions = [] := rfl

@[simp] theorem issues_fault (f : Fault) (place : σ) : (fault f place).issues = [⟨f, place⟩] := rfl

end Concatenation

end Document

/-! ## What is pending -/

/-- The definition a pending function amounts to, if its header could be read. -/
def Pending.definition? (p : Pending) : Option (Definition Span) :=
  p.header.map fun h ↦ ⟨⟨h, p.cases.reverse.map (·.1)⟩, p.headerAt, p.cases.reverse.map (·.2)⟩

/-- Completing a function adds the definition it amounts to. -/
@[simp] theorem Pending.definitions_finish (p : Pending) :
    p.finish.definitions = p.definition?.toList := by
  unfold finish definition?
  split
  · next h hp => rw [hp]; rfl
  · next hp => rw [hp]; rfl

attribute [simp] Pending.issues_finish

namespace Document

/-- The definitions that what is pending amounts to. -/
def pendingDefinitions (pending : Option Pending) : List (Definition Span) :=
  (pending.bind Pending.definition?).toList

@[simp] theorem pendingDefinitions_none : pendingDefinitions none = [] := rfl

@[simp] theorem pendingDefinitions_some (p : Pending) :
    pendingDefinitions (some p) = p.definition?.toList := rfl

/-- Whether the pending function is open. -/
def isOpen (pending : Option Pending) : Bool := pending.any (·.isOpen)

@[simp] theorem isOpen_none : isOpen none = false := rfl

@[simp] theorem isOpen_some (p : Pending) : isOpen (some p) = p.isOpen := rfl

/-- A header completes what is pending. -/
@[simp] theorem definitions_beforeHeader (place : Span) (pending : Option Pending) :
    (beforeHeader place pending).definitions = pendingDefinitions pending := by
  cases pending with
  | none => rfl
  | some p => cases hopen : p.isOpen <;> simp [beforeHeader, hopen]

/-- A header reports a function that is still open. -/
@[simp] theorem issues_beforeHeader (place : Span) (pending : Option Pending) :
    (beforeHeader place pending).issues =
      if isOpen pending then [⟨.unclosedBeforeHeader, place⟩] else [] := by
  cases pending with
  | none => rfl
  | some p => cases hopen : p.isOpen <;> simp [beforeHeader, hopen]

/-- The end of the text completes what is pending. -/
@[simp] theorem definitions_atEnd (pending : Option Pending) :
    (atEnd pending).definitions = pendingDefinitions pending := by
  cases pending with
  | none => rfl
  | some p => cases hopen : p.isOpen <;> simp [atEnd, hopen]

@[simp] theorem atEnd_none : atEnd none = empty := rfl

/-- The end of the text reports a function that is still open. -/
theorem issues_atEnd_some (p : Pending) :
    (atEnd (some p)).issues = if p.isOpen then [⟨.unclosedAtEnd, p.headerAt⟩] else [] := by
  cases hopen : p.isOpen <;> simp [atEnd, hopen]

/-! ## Steps -/

/-- What a line does to what is pending, and what it adds to the document. -/
inductive Step (line : Line) : Option Pending → Option Pending → Document Span → Prop
  /-- A blank line does nothing. -/
  | blank {pending : Option Pending} (hkind : line.kind = .blank) : Step line pending pending .empty
  /-- A header completes what is pending and starts a function. -/
  | header {pending : Option Pending} (h : Header) (hkind : line.kind = .header)
    (hparse : Header.parse? line.text = some h) :
    Step line pending (some ⟨some h, line.span, [], false⟩) (beforeHeader line.span pending)
  /-- A header that cannot be read does the same, is reported, and starts a function that is
  dropped in the end. -/
  | malformedHeader {pending : Option Pending} (hkind : line.kind = .header)
    (hparse : Header.parse? line.text = none) :
    Step line pending (some ⟨none, line.span, [], false⟩)
      (beforeHeader line.span pending ++ .fault .malformedHeader line.span)
  /-- A brace opens a function that has neither a brace nor a case. -/
  | opening (p : Pending) (hkind : line.kind = .opening) (hopen : p.isOpen = false)
    (hcases : p.cases = []) : Step line (some p) (some { p with isOpen := true }) .empty
  /-- An opening brace is reported if no function is pending. -/
  | strayOpening (hkind : line.kind = .opening) :
    Step line none none (.fault .openingWithoutHeader line.span)
  /-- An opening brace is reported if the function has a brace or a case. -/
  | extraOpening (p : Pending) (hkind : line.kind = .opening)
    (hbusy : p.isOpen = true ∨ p.cases ≠ []) :
    Step line (some p) (some p) (.fault .unexpectedOpening line.span)
  /-- A brace closes a function that is open. -/
  | closing (p : Pending) (hkind : line.kind = .closing) (hopen : p.isOpen = true) :
    Step line (some p) none p.finish
  /-- A closing brace is reported if no function is open. -/
  | strayClosing {pending : Option Pending} (hkind : line.kind = .closing)
    (hopen : isOpen pending = false) :
    Step line pending pending (.fault .unmatchedClosing line.span)
  /-- A case joins the pending function. -/
  | case (p : Pending) (c : Case) (hkind : line.kind = .case)
    (hparse : Case.parse? line.text = some c) :
    Step line (some p) (some { p with cases := (c, line.span) :: p.cases }) .empty
  /-- A case is reported if no function is pending. -/
  | strayCase (hkind : line.kind = .case) :
    Step line none none (.fault .caseOutsideFunction line.span)
  /-- A case that cannot be read is reported. -/
  | malformedCase (p : Pending) (hkind : line.kind = .case)
    (hparse : Case.parse? line.text = none) :
    Step line (some p) (some p) (.fault .malformedCase line.span)

/-- The assembler takes steps. -/
theorem step_spec (pending : Option Pending) (line : Line) :
    Step line pending (step pending line).1 (step pending line).2 := by
  unfold step
  split
  · next hkind =>
    rw [onHeader]
    cases hparse : Header.parse? line.text with
    | some h => simpa using Step.header h hkind hparse
    | none => exact .malformedHeader hkind hparse
  · next hkind =>
    cases pending with
    | none => exact .strayOpening hkind
    | some p =>
      rw [onOpening]
      split
      · next hbusy => exact .extraOpening p hkind hbusy
      · next hfree =>
        obtain ⟨hopen, hcases⟩ := not_or.mp hfree
        exact .opening p hkind (Bool.not_eq_true _ ▸ hopen) (Decidable.not_not.mp hcases)
  · next hkind =>
    cases pending with
    | none => exact .strayClosing hkind rfl
    | some p =>
      rw [onClosing]
      split
      · next hopen => exact .closing p hkind hopen
      · next hopen => exact .strayClosing hkind (Bool.not_eq_true _ ▸ hopen)
  · next hkind =>
    cases pending with
    | none => exact .strayCase hkind
    | some p =>
      rw [onCase]
      cases hparse : Case.parse? line.text with
      | none => exact .malformedCase p hkind hparse
      | some c => exact .case p c hkind hparse
  · next hkind => exact .blank hkind

/-- Every step is one the assembler takes. -/
theorem Step.eq {line : Line} {pending next : Option Pending} {added : Document Span}
    (h : Step line pending next added) : step pending line = (next, added) := by
  cases h with
  | blank hkind => simp [step, hkind]
  | header h hkind hparse => simp [step, hkind, onHeader, hparse]
  | malformedHeader hkind hparse => simp [step, hkind, onHeader, hparse]
  | opening p hkind hopen hcases => simp [step, hkind, onOpening, hopen, hcases]
  | strayOpening hkind => simp [step, hkind, onOpening]
  | extraOpening p hkind hbusy => simp only [step, hkind, onOpening, if_pos hbusy]
  | closing p hkind hopen => simp [step, hkind, onClosing, hopen]
  | strayClosing hkind hopen =>
    cases pending with
    | none => simp [step, hkind, onClosing]
    | some p => simp [step, hkind, onClosing, show p.isOpen = false from hopen]
  | case p c hkind hparse => simp [step, hkind, onCase, hparse]
  | strayCase hkind => simp [step, hkind, onCase]
  | malformedCase p hkind hparse => simp [step, hkind, onCase, hparse]

/-! ## Runs -/

theorem assembleFrom_cons (pending : Option Pending) (line : Line) (rest : List Line) :
    assembleFrom pending (line :: rest) =
      (step pending line).2 ++ assembleFrom (step pending line).1 rest := rfl

/-- Blank lines do not change the document. -/
theorem assembleFrom_filter_blank (pending : Option Pending) (lines : List Line) :
    assembleFrom pending (lines.filter (·.kind ≠ .blank)) = assembleFrom pending lines := by
  induction lines generalizing pending with
  | nil => rfl
  | cons line rest ih =>
    by_cases hkind : line.kind = .blank
    · rw [List.filter_cons_of_neg (by simpa using hkind), ih, assembleFrom_cons,
        (Step.blank hkind).eq, empty_append]
    · rw [List.filter_cons_of_pos (by simpa using hkind), assembleFrom_cons, assembleFrom_cons, ih]

end Document

end Lilac
