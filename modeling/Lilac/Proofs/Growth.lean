import Lilac.Proofs.Headings
import Lilac.Proofs.Lines

/-!
# Growing texts

Lines that are appended to a text are read after all lines before them, with what those left
pending. So a document only grows: faults and functions stay where they are, and only the function
that was pending may get further cases. The one thing that is taken back is the report that the text
ended before a closing brace.

About `parse_document`. Specification: `SPEC_FULL.md`, section 7.
-/

namespace Lilac

private theorem Text.lines_append (s t : Text) : lines (s ++ '\n' :: t) = lines s ++ lines t :=
  pieces_append s t

/-- The second of two texts is scanned with the line numbers going on. -/
theorem Line.scan_append (s t : Text) :
    scan (s ++ '\n' :: t) = scan s ++ ofPhysicals (1 + s.lines.length) t.lines := by
  rw [scan, Text.lines_append, ofPhysicals_append, scan]

namespace Document

/-! ## What a line is reported for -/

/-- A fault that a line can be reported for: it stands at the line, the end of the text has no part
in it, and a case is reported as malformed or as being outside a function. -/
structure Reported (line : Line) (i : Issue Span) : Prop where
  place_eq : i.place = line.span
  fault_ne : i.fault ≠ .unclosedAtEnd
  fault_of_case : line.kind = .case → i.fault ∈ [.malformedCase, .caseOutsideFunction]

/-- Every fault that a line adds is reported for that line. -/
theorem Step.reported {line : Line} {pending next : Option Pending} {added : Document Span}
    (h : Step line pending next added) : ∀ i ∈ added.issues, Reported line i := by
  -- A header is the only line that can be reported twice.
  have hunclosed (hkind : line.kind = .header) :
      ∀ i ∈ (beforeHeader line.span pending).issues, Reported line i := by
    intro i hi
    rw [issues_beforeHeader] at hi
    split at hi
    · rw [List.mem_singleton.mp hi]
      exact ⟨rfl, by simp, by simp [hkind]⟩
    · cases hi
  have hfault (f : Fault) (hne : f ≠ .unclosedAtEnd)
      (hcase : line.kind = .case → f ∈ [.malformedCase, .caseOutsideFunction]) :
      ∀ i ∈ (fault f line.span).issues, Reported line i := by
    intro i hi
    rw [List.mem_singleton.mp hi]
    exact ⟨rfl, hne, hcase⟩
  cases h with
  | blank | opening | case => simp
  | closing p => simp
  | header h hkind => exact hunclosed hkind
  | malformedHeader hkind =>
    rw [issues_append]
    exact List.forall_mem_append.mpr ⟨hunclosed hkind, hfault _ (by simp) (by simp [hkind])⟩
  | strayOpening hkind | extraOpening _ hkind | strayClosing hkind | strayCase hkind
  | malformedCase _ hkind => exact hfault _ (by simp) (by simp [hkind])

/-- Every fault that a run adds is reported for one of its lines. -/
theorem exists_reported_of_mem_run {pending : Option Pending} {lines : List Line} {i : Issue Span}
    (hi : i ∈ (run pending lines).2.issues) : ∃ line ∈ lines, Reported line i := by
  induction lines generalizing pending with
  | nil => cases hi
  | cons line rest ih =>
    rw [run_cons, issues_append, List.mem_append] at hi
    rcases hi with hi | hi
    · exact ⟨line, List.mem_cons_self, (step_spec pending line).reported i hi⟩
    · obtain ⟨other, hother, hreported⟩ := ih hi
      exact ⟨other, List.mem_cons_of_mem line hother, hreported⟩

/-! ## What the end of a text is reported for -/

section Faults

variable {σ : Type}

/-- Whether the last fault of a document is that the text ended before a closing brace. -/
def endsUnclosed (d : Document σ) : Bool := d.issues.getLast?.any (·.fault = .unclosedAtEnd)

/-- The faults of a document, without a last one that the text ended before a closing brace. -/
def lastingIssues (d : Document σ) : List (Issue σ) :=
  if d.endsUnclosed then d.issues.dropLast else d.issues

end Faults

/-- The end of the text is reported exactly if a function is open. -/
theorem endsUnclosed_append_atEnd {d : Document Span}
    (hd : ∀ i ∈ d.issues, i.fault ≠ .unclosedAtEnd) (pending : Option Pending) :
    (d ++ atEnd pending).endsUnclosed = isOpen pending := by
  have hlast : d.issues.getLast?.any (·.fault = .unclosedAtEnd) = false := by
    cases hi : d.issues.getLast? with
    | none => rfl
    | some i => simpa using hd i (List.mem_of_getLast? hi)
  cases pending with
  | none => simpa [endsUnclosed] using hlast
  | some p =>
    rw [endsUnclosed, issues_append, issues_atEnd_some, isOpen_some]
    by_cases hopen : p.isOpen = true
    · simp [hopen]
    · simpa [hopen] using hlast

private theorem lastingIssues_append_atEnd {d : Document Span}
    (hd : ∀ i ∈ d.issues, i.fault ≠ .unclosedAtEnd) (pending : Option Pending) :
    (d ++ atEnd pending).lastingIssues = d.issues := by
  rw [lastingIssues, endsUnclosed_append_atEnd hd]
  cases pending with
  | none => simp
  | some p =>
    rw [issues_append, issues_atEnd_some, isOpen_some]
    by_cases hopen : p.isOpen = true
    · simp [hopen]
    · simp [hopen]

private theorem fault_ne_of_mem_run {lines : List Line} :
    ∀ i ∈ (run none lines).2.issues, i.fault ≠ .unclosedAtEnd := by
  intro i hi
  obtain ⟨line, -, hreported⟩ := exists_reported_of_mem_run hi
  exact hreported.fault_ne

/-- A document ends unclosed exactly if its lines leave a function open. -/
theorem endsUnclosed_assemble (lines : List Line) :
    (assemble lines).endsUnclosed = isOpen (run none lines).1 := by
  rw [assemble, assembleFrom_eq]
  exact endsUnclosed_append_atEnd fault_ne_of_mem_run _

/-- The faults that last are those that the lines add. -/
theorem lastingIssues_assemble (lines : List Line) :
    (assemble lines).lastingIssues = (run none lines).2.issues := by
  rw [assemble, assembleFrom_eq]
  exact lastingIssues_append_atEnd fault_ne_of_mem_run _

end Document

/-! ## Definitions that grow -/

/-- A definition grows into another: the header and its place are the same, and further cases with
their places may have been added. -/
structure Definition.GrowsInto (d d' : Definition Span) : Prop where
  header_eq : d'.function.header = d.function.header
  headerAt_eq : d'.headerAt = d.headerAt
  cases_isPrefix : d.function.cases <+: d'.function.cases
  casesAt_isPrefix : d.casesAt <+: d'.casesAt

namespace Definition

@[refl] theorem GrowsInto.refl (d : Definition Span) : d.GrowsInto d :=
  ⟨rfl, rfl, List.prefix_rfl, List.prefix_rfl⟩

private theorem GrowsInto.trans {d d' d'' : Definition Span} (h : d.GrowsInto d')
    (h' : d'.GrowsInto d'') : d.GrowsInto d'' where
  header_eq := h'.header_eq.trans h.header_eq
  headerAt_eq := h'.headerAt_eq.trans h.headerAt_eq
  cases_isPrefix := h.cases_isPrefix.trans h'.cases_isPrefix
  casesAt_isPrefix := h.casesAt_isPrefix.trans h'.casesAt_isPrefix

/-- Each of some definitions grows into the one at its position among others. -/
def AllGrowInto (ds ds' : List (Definition Span)) : Prop :=
  ∀ (i : Nat) d, ds[i]? = some d → ∃ d', ds'[i]? = some d' ∧ d.GrowsInto d'

variable {ds ds' ds'' : List (Definition Span)}

private theorem AllGrowInto.trans (h : AllGrowInto ds ds') (h' : AllGrowInto ds' ds'') :
    AllGrowInto ds ds'' := by
  intro i d hd
  obtain ⟨d', hd', hgrows⟩ := h i d hd
  obtain ⟨d'', hd'', hgrows'⟩ := h' i d' hd'
  exact ⟨d'', hd'', hgrows.trans hgrows'⟩

/-- Definitions may be added at the end. -/
theorem allGrowInto_of_isPrefix (h : ds <+: ds') : AllGrowInto ds ds' := by
  intro i d hd
  obtain ⟨rest, rfl⟩ := h
  obtain ⟨hi, -⟩ := List.getElem?_eq_some_iff.mp hd
  exact ⟨d, by rw [List.getElem?_append_left hi, hd], .refl d⟩

/-- Definitions may stand in front. -/
theorem AllGrowInto.append_left (h : AllGrowInto ds ds') (front : List (Definition Span)) :
    AllGrowInto (front ++ ds) (front ++ ds') := by
  intro i d hd
  by_cases hi : i < front.length
  · rw [List.getElem?_append_left hi] at hd ⊢
    exact ⟨d, hd, .refl d⟩
  · rw [List.getElem?_append_right (Nat.le_of_not_lt hi)] at hd ⊢
    exact h _ d hd

private theorem allGrowInto_singleton {d d' : Definition Span} (h : d.GrowsInto d') :
    AllGrowInto [d] [d'] := by
  intro i x hx
  cases i with
  | zero =>
    obtain rfl := Option.some.inj hx
    exact ⟨d', rfl, h⟩
  | succ i => simp at hx

private theorem AllGrowInto.length_le (h : AllGrowInto ds ds') : ds.length ≤ ds'.length := by
  apply Nat.le_of_not_lt
  intro hlt
  obtain ⟨d', hd', -⟩ := h ds'.length _ (List.getElem?_eq_getElem hlt)
  simp at hd'

end Definition

namespace Document

open Definition

/-- A line adds the definition that is pending, or leaves it pending with perhaps one more case. -/
theorem Step.allGrowInto {line : Line} {pending next : Option Pending} {added : Document Span}
    (h : Step line pending next added) :
    AllGrowInto (pendingDefinitions pending) (added.definitions ++ pendingDefinitions next) := by
  cases h with
  | case p c =>
    cases hheader : p.header with
    | none => exact allGrowInto_of_isPrefix (by simp [Pending.definition?, hheader])
    | some h =>
      simp only [pendingDefinitions_some, Pending.definition?, hheader, Option.map_some,
        Option.toList_some, definitions_empty, List.nil_append]
      apply allGrowInto_singleton
      exact ⟨rfl, rfl, by simp, by simp⟩
  | opening p => exact allGrowInto_of_isPrefix (by simp [Pending.definition?])
  | closing p => exact allGrowInto_of_isPrefix (by simp)
  | blank | header | malformedHeader | strayOpening | extraOpening | strayClosing | strayCase
  | malformedCase => exact allGrowInto_of_isPrefix (by simp)

/-- Whatever lines follow, the definition that is pending comes first and may have grown. -/
theorem allGrowInto_assembleFrom (pending : Option Pending) (lines : List Line) :
    AllGrowInto (pendingDefinitions pending) (assembleFrom pending lines).definitions := by
  induction lines generalizing pending with
  | nil =>
    apply allGrowInto_of_isPrefix
    simp [assembleFrom]
  | cons line rest ih =>
    rw [assembleFrom_cons, definitions_append]
    exact (step_spec pending line).allGrowInto.trans ((ih _).append_left _)

/-! ## Documents that grow -/

/-- A document grows into another: its faults come first, but for a last one that the text ended
before a closing brace; each function is still there, and none but the last has changed. -/
structure GrowsInto (d d' : Document Span) : Prop where
  issues_isPrefix : d.lastingIssues <+: d'.issues
  length_le : d.definitions.length ≤ d'.definitions.length
  definitions : ∀ (i : Nat) x, d.definitions[i]? = some x →
    ∃ y, d'.definitions[i]? = some y ∧ x.GrowsInto y ∧
      (i + 1 < d.definitions.length → y = x)

/-- The definitions of some lines are those that the lines add, and the one they leave pending. -/
theorem definitions_assemble (lines : List Line) :
    (assemble lines).definitions =
      (run none lines).2.definitions ++ pendingDefinitions (run none lines).1 := by
  rw [assemble, assembleFrom_eq, definitions_append, definitions_atEnd]

/-- Further lines are read with what the lines before them leave pending. -/
theorem assemble_append (lines more : List Line) :
    assemble (lines ++ more) = (run none lines).2 ++ assembleFrom (run none lines).1 more := by
  rw [assemble, assembleFrom_eq, run_append, append_assoc, ← assembleFrom_eq]

/-- The definitions of some lines grow with the lines. -/
theorem allGrowInto_assemble_append (lines more : List Line) :
    AllGrowInto (assemble lines).definitions (assemble (lines ++ more)).definitions := by
  rw [assemble_append, definitions_append, definitions_assemble]
  exact (allGrowInto_assembleFrom _ more).append_left _

private theorem getElem?_assemble_append {lines : List Line} {i : Nat}
    (hi : i + 1 < (assemble lines).definitions.length) (more : List Line) :
    (assemble (lines ++ more)).definitions[i]? = (assemble lines).definitions[i]? := by
  -- Only one definition can be pending, so this one was added by the lines.
  have hpending : (pendingDefinitions (run none lines).1).length ≤ 1 := Option.length_toList_le
  rw [definitions_assemble, List.length_append] at hi
  have hadded : i < (run none lines).2.definitions.length := by omega
  rw [assemble_append, definitions_append, definitions_assemble, List.getElem?_append_left hadded,
    List.getElem?_append_left hadded]

/-- Documents grow with the lines. -/
theorem growsInto_assemble_append (lines more : List Line) :
    (assemble lines).GrowsInto (assemble (lines ++ more)) := by
  have hgrow := allGrowInto_assemble_append lines more
  refine ⟨?_, hgrow.length_le, ?_⟩
  · rw [lastingIssues_assemble, assemble_append, issues_append]
    exact List.prefix_append _ _
  · intro i x hx
    obtain ⟨y, hy, hgrows⟩ := hgrow i x hx
    refine ⟨y, hy, hgrows, ?_⟩
    intro hi
    rw [getElem?_assemble_append hi, hx] at hy
    exact (Option.some.inj hy).symm

/-- The document of a source text grows when lines are appended to the text. -/
theorem parse_growsInto (s t : Text) : (parse s).GrowsInto (parse (s ++ '\n' :: t)) := by
  rw [parse, parse, Line.scan_append]
  exact growsInto_assemble_append _ _

-- A missing brace is no longer reported when the brace comes.
example : (parse "func f a -> b \x7b".toList).endsUnclosed = true ∧
    (parse "func f a -> b \x7b\n\x7d".toList).issues = [] := by
  decide

end Document

end Lilac
