import Lilac.Proofs.Growth

/-!
# Texts one after the other

The assembler passes places on without looking at them, so moving the lines of a text moves the
places of its document and changes nothing else. A header completes whatever is pending and starts
afresh. A text that goes on with a header therefore has the document of its first part, without the
report that the text ended before a closing brace, followed by the document of the rest, moved down;
and a header that comes too early is reported where the end of the text would have been.

About `parse_document`. Specification: `SPEC_FULL.md`, section 7.
-/

namespace Lilac

/-! ## Moving lines -/

/-- The same place some lines further down. -/
def Span.down (k : Nat) (s : Span) : Span := { s with line := s.line + k }

namespace Line

/-- The line at another place. -/
def mapPlace (f : Span → Span) (line : Line) : Line := { line with span := f line.span }

private theorem starting_add (kind : LineKind) (text : Text) (number column k : Nat) :
    starting kind text (number + k) column =
      (starting kind text number column).mapPlace (Span.down k) := by
  simp [starting, mapPlace, Span.down]

private theorem classify_add (number column k : Nat) (text : Text) :
    classify (number + k) column text =
      (classify number column text).map (mapPlace (Span.down k)) := by
  unfold classify
  split
  · rw [starting_add, List.map_singleton]
  split
  · rw [starting_add, List.map_singleton]
  split
  · rw [starting_add, List.map_singleton]
  split
  · split
    · rw [starting_add, starting_add, List.map_cons, List.map_singleton]
    · rw [starting_add, List.map_singleton]
  · rw [starting_add, List.map_singleton]

/-- Physical lines with greater numbers are scanned alike and stand further down. -/
theorem ofPhysicals_add (number k : Nat) (raws : List Text) :
    ofPhysicals (number + k) raws = (ofPhysicals number raws).map (mapPlace (Span.down k)) := by
  induction raws generalizing number with
  | nil => rfl
  | cons raw raws ih =>
    have hnext : ofPhysicals (number + k + 1) raws =
        (ofPhysicals (number + 1) raws).map (mapPlace (Span.down k)) := by
      rw [Nat.add_right_comm, ih]
    have hfirst : ofPhysical (number + k) raw =
        (ofPhysical number raw).map (mapPlace (Span.down k)) := classify_add number _ k _
    rw [ofPhysicals, hnext, hfirst, ofPhysicals, List.map_append]

/-- The second of two texts is scanned as it would be alone, and its lines stand further down. -/
theorem scan_append_down (s t : Text) :
    scan (s ++ '\n' :: t) = scan s ++ (scan t).map (mapPlace (Span.down s.lines.length)) := by
  rw [scan_append, ofPhysicals_add, ← scan]

end Line

/-! ## Moving documents -/

/-- The pending function with all its places changed. -/
def Pending.mapPlaces (f : Span → Span) (p : Pending) : Pending :=
  { p with headerAt := f p.headerAt, cases := p.cases.map fun x ↦ (x.1, f x.2) }

@[simp] theorem Pending.isOpen_mapPlaces (f : Span → Span) (p : Pending) :
    (p.mapPlaces f).isOpen = p.isOpen := rfl

@[simp] theorem Pending.headerAt_mapPlaces (f : Span → Span) (p : Pending) :
    (p.mapPlaces f).headerAt = f p.headerAt := rfl

@[simp] theorem Pending.cases_mapPlaces (f : Span → Span) (p : Pending) :
    (p.mapPlaces f).cases = p.cases.map fun x ↦ (x.1, f x.2) := rfl

namespace Document

section Places

variable {σ τ : Type} (f : σ → τ)

@[simp] theorem mapPlaces_empty : mapPlaces f empty = empty := rfl

@[simp] theorem mapPlaces_fault (fault : Fault) (place : σ) :
    mapPlaces f (.fault fault place) = .fault fault (f place) := rfl

@[simp] theorem mapPlaces_append (a b : Document σ) :
    mapPlaces f (a ++ b) = mapPlaces f a ++ mapPlaces f b := by
  show Document.mk _ _ = Document.mk _ _
  congr 1
  · exact List.map_append
  · exact List.map_append

end Places

variable (f : Span → Span)

/-- Completing a moved function gives the moved definition. -/
@[simp] theorem finish_mapPlaces (p : Pending) :
    (p.mapPlaces f).finish = p.finish.mapPlaces f := by
  cases hheader : p.header with
  | none => simp [Pending.finish, Pending.mapPlaces, hheader]
  | some h => simp [Pending.finish, Pending.mapPlaces, mapPlaces, hheader, Function.comp_def]

/-- A moved header completes what is pending at the moved place. -/
@[simp] theorem beforeHeader_mapPlaces (place : Span) (pending : Option Pending) :
    beforeHeader (f place) (pending.map (·.mapPlaces f)) =
      (beforeHeader place pending).mapPlaces f := by
  cases pending with
  | none => rfl
  | some p =>
    by_cases hopen : p.isOpen = true
    · simp [beforeHeader, hopen]
    · simp [beforeHeader, hopen]

/-- The end of the text completes a moved function at its moved place. -/
@[simp] theorem atEnd_mapPlaces (pending : Option Pending) :
    atEnd (pending.map (·.mapPlaces f)) = (atEnd pending).mapPlaces f := by
  cases pending with
  | none => rfl
  | some p =>
    by_cases hopen : p.isOpen = true
    · simp [atEnd, hopen]
    · simp [atEnd, hopen]

@[simp] theorem isOpen_map_mapPlaces (pending : Option Pending) :
    isOpen (pending.map (·.mapPlaces f)) = isOpen pending := by
  cases pending with
  | none => rfl
  | some p => rfl

/-- A moved line does the same to what is moved. -/
theorem Step.mapPlaces {line : Line} {pending next : Option Pending} {added : Document Span}
    (h : Step line pending next added) :
    Step (line.mapPlace f) (pending.map (·.mapPlaces f)) (next.map (·.mapPlaces f))
      (added.mapPlaces f) := by
  cases h with
  | blank hkind => exact .blank hkind
  | header h hkind hparse =>
    rw [← beforeHeader_mapPlaces]
    exact .header h hkind hparse
  | malformedHeader hkind hparse =>
    rw [mapPlaces_append, ← beforeHeader_mapPlaces]
    exact .malformedHeader hkind hparse
  | opening p hkind hopen hcases =>
    exact .opening (p.mapPlaces f) hkind hopen (by simpa using hcases)
  | strayOpening hkind => exact .strayOpening hkind
  | extraOpening p hkind hbusy =>
    exact .extraOpening (p.mapPlaces f) hkind (by simpa using hbusy)
  | closing p hkind hopen =>
    rw [← finish_mapPlaces]
    exact .closing (p.mapPlaces f) hkind hopen
  | strayClosing hkind hopen => exact .strayClosing hkind (by simpa using hopen)
  | case p c hkind hparse => exact .case (p.mapPlaces f) c hkind hparse
  | strayCase hkind => exact .strayCase hkind
  | malformedCase p hkind hparse => exact .malformedCase (p.mapPlaces f) hkind hparse

/-- Moved lines after what is moved give the moved document. -/
theorem assembleFrom_mapPlaces (pending : Option Pending) (lines : List Line) :
    assembleFrom (pending.map (·.mapPlaces f)) (lines.map (Line.mapPlace f)) =
      (assembleFrom pending lines).mapPlaces f := by
  induction lines generalizing pending with
  | nil => rw [List.map_nil, assembleFrom, atEnd_mapPlaces, assembleFrom]
  | cons line rest ih =>
    have hstep := ((step_spec pending line).mapPlaces f).eq
    rw [List.map_cons, assembleFrom_cons, hstep, ih, assembleFrom_cons, mapPlaces_append]

/-- Moved lines give the moved document. -/
theorem assemble_mapPlaces (lines : List Line) :
    assemble (lines.map (Line.mapPlace f)) = (assemble lines).mapPlaces f :=
  assembleFrom_mapPlaces f none lines

/-! ## Going on with a header -/

/-- A header completes what is pending and then does what it does when nothing is pending. -/
theorem assembleFrom_header {line : Line} (hkind : line.kind = .header) (pending : Option Pending)
    (rest : List Line) :
    assembleFrom pending (line :: rest) =
      beforeHeader line.span pending ++ assemble (line :: rest) := by
  rw [assembleFrom_cons, assemble, assembleFrom_cons]
  cases hparse : Header.parse? line.text with
  | some h => rw [(Step.header h hkind hparse).eq, (Step.header h hkind hparse).eq]; rfl
  | none =>
    rw [(Step.malformedHeader hkind hparse).eq, (Step.malformedHeader hkind hparse).eq,
      append_assoc]
    rfl

/-- Lines that start with a header, but for blank lines, are read afresh. -/
theorem assembleFrom_of_find? {lines : List Line} {header : Line}
    (hfirst : lines.find? (·.kind ≠ .blank) = some header) (hkind : header.kind = .header)
    (pending : Option Pending) :
    assembleFrom pending lines = beforeHeader header.span pending ++ assemble lines := by
  rw [← List.head?_filter] at hfirst
  obtain ⟨rest, hfilter⟩ := List.head?_eq_some_iff.mp hfirst
  rw [← assembleFrom_filter_blank, assemble, ← assembleFrom_filter_blank none, hfilter]
  exact assembleFrom_header hkind pending rest

section Header

variable {more : List Line} {header : Line}

/-- Lines that go on with a header are read afresh from there. -/
theorem assemble_append_header (lines : List Line)
    (hfirst : more.find? (·.kind ≠ .blank) = some header) (hkind : header.kind = .header) :
    assemble (lines ++ more) =
      (run none lines).2 ++ (beforeHeader header.span (run none lines).1 ++ assemble more) := by
  rw [assemble_append, assembleFrom_of_find? hfirst hkind]

/-- Lines that go on with a header have the definitions of both parts. -/
theorem definitions_assemble_append_header (lines : List Line)
    (hfirst : more.find? (·.kind ≠ .blank) = some header) (hkind : header.kind = .header) :
    (assemble (lines ++ more)).definitions =
      (assemble lines).definitions ++ (assemble more).definitions := by
  rw [assemble_append_header lines hfirst hkind, definitions_assemble lines]
  simp

/-- Lines that go on with a header have the faults of both parts; that the first part ended unclosed
is reported at the header. -/
theorem issues_assemble_append_header (lines : List Line)
    (hfirst : more.find? (·.kind ≠ .blank) = some header) (hkind : header.kind = .header) :
    (assemble (lines ++ more)).issues =
      (assemble lines).lastingIssues ++
        (if (assemble lines).endsUnclosed then [⟨.unclosedBeforeHeader, header.span⟩] else []) ++
        (assemble more).issues := by
  rw [assemble_append_header lines hfirst hkind, lastingIssues_assemble, endsUnclosed_assemble]
  simp

end Header

/-- A text that goes on with a header has the functions of the first part and, moved down, those of
the rest. It has the faults of both parts, but if the first part ended unclosed, this is reported at
the header instead. -/
theorem parse_append_header (s : Text) {t : Text} {header : Line}
    (hfirst : (Line.scan t).find? (·.kind ≠ .blank) = some header)
    (hkind : header.kind = .header) :
    (parse (s ++ '\n' :: t)).definitions =
        (parse s).definitions ++ ((parse t).mapPlaces (Span.down s.lines.length)).definitions ∧
      (parse (s ++ '\n' :: t)).issues =
        (parse s).lastingIssues ++
          (if (parse s).endsUnclosed then
            [⟨.unclosedBeforeHeader, header.span.down s.lines.length⟩] else []) ++
          ((parse t).mapPlaces (Span.down s.lines.length)).issues := by
  have hmoved : ((Line.scan t).map (Line.mapPlace (Span.down s.lines.length))).find?
      (·.kind ≠ .blank) = some (header.mapPlace (Span.down s.lines.length)) := by
    rw [List.find?_map]
    exact congrArg (Option.map _) hfirst
  have hrest : assemble ((Line.scan t).map (Line.mapPlace (Span.down s.lines.length))) =
      (parse t).mapPlaces (Span.down s.lines.length) := assemble_mapPlaces _ _
  rw [parse, Line.scan_append_down, ← hrest]
  constructor
  · exact definitions_assemble_append_header _ hmoved hkind
  · exact issues_assemble_append_header _ hmoved hkind

/-- A function that is left open, an empty line, and a header that cannot be read. -/
theorem parse_append_header_unclosed :
    (Line.scan "\nfunc g".toList).find? (·.kind ≠ .blank) =
        some ⟨.header, "func g".toList, ⟨2, 1, 7⟩⟩ ∧
      (parse ("func f a -> b \x7b".toList ++ '\n' :: "\nfunc g".toList)).definitions =
        [⟨⟨⟨['f'], [['a']], [['b']]⟩, []⟩, ⟨1, 1, 14⟩, []⟩] ∧
      (parse ("func f a -> b \x7b".toList ++ '\n' :: "\nfunc g".toList)).issues =
        [⟨.unclosedBeforeHeader, ⟨3, 1, 7⟩⟩, ⟨.malformedHeader, ⟨3, 1, 7⟩⟩] := by
  have hfirst : (Line.scan "\nfunc g".toList).find? (·.kind ≠ .blank) =
      some ⟨.header, "func g".toList, ⟨2, 1, 7⟩⟩ := by decide
  have happend := parse_append_header "func f a -> b \x7b".toList hfirst rfl
  exact ⟨hfirst, happend.1.trans (by decide), happend.2.trans (by decide)⟩

end Document

end Lilac
