import Lilac.Proofs.Steps

/-!
# The grammar of documents

A document is a sequence of blocks, one for each function. A block is a header line followed either
by case lines, or by an opening brace, case lines and a closing brace; blank lines count nowhere.
The assembler reports nothing exactly when the lines follow this grammar, and then it gives the
functions that the blocks spell.

About `parse_document`. Specification: `SPEC_FULL.md`, section 7.
-/

namespace Lilac

namespace Document

/-! ## Blocks -/

/-- Lines that are cases, each with what it reads as and its place. -/
inductive CaseLines : List Line → List (Case × Span) → Prop
  | nil : CaseLines [] []
  | cons {line : Line} {c : Case} {lines : List Line} {cs : List (Case × Span)}
    (hkind : line.kind = .case) (hparse : Case.parse? line.text = some c)
    (hrest : CaseLines lines cs) : CaseLines (line :: lines) ((c, line.span) :: cs)

/-- The lines of one function, with or without braces, and the definition they spell. -/
inductive Block : List Line → Definition Span → Prop
  | plain {header : Line} {h : Header} {lines : List Line} {cs : List (Case × Span)}
    (hkind : header.kind = .header) (hparse : Header.parse? header.text = some h)
    (hcases : CaseLines lines cs) :
    Block (header :: lines) ⟨⟨h, cs.map (·.1)⟩, header.span, cs.map (·.2)⟩
  | braced {header opening closing : Line} {h : Header} {lines : List Line}
    {cs : List (Case × Span)} (hkind : header.kind = .header)
    (hparse : Header.parse? header.text = some h) (hopening : opening.kind = .opening)
    (hcases : CaseLines lines cs) (hclosing : closing.kind = .closing) :
    Block (header :: opening :: (lines ++ [closing]))
      ⟨⟨h, cs.map (·.1)⟩, header.span, cs.map (·.2)⟩

/-- Blocks one after the other, and the definitions they spell. -/
inductive Blocks : List Line → List (Definition Span) → Prop
  | nil : Blocks [] []
  | cons {lines rest : List Line} {d : Definition Span} {ds : List (Definition Span)}
    (hblock : Block lines d) (hrest : Blocks rest ds) : Blocks (lines ++ rest) (d :: ds)

private theorem CaseLines.concat {lines : List Line} {cs : List (Case × Span)}
    (h : CaseLines lines cs) {line : Line} {c : Case} (hkind : line.kind = .case)
    (hparse : Case.parse? line.text = some c) :
    CaseLines (lines ++ [line]) (cs ++ [(c, line.span)]) := by
  induction h with
  | nil => exact .cons hkind hparse .nil
  | cons hkind' hparse' _ ih => exact .cons hkind' hparse' ih

/-- One more block at the end. -/
theorem Blocks.concat {lines : List Line} {ds : List (Definition Span)} (h : Blocks lines ds)
    {block : List Line} {d : Definition Span} (hblock : Block block d) :
    Blocks (lines ++ block) (ds ++ [d]) := by
  induction h with
  | nil => simpa using Blocks.cons hblock .nil
  | cons hfirst _ ih => simpa using Blocks.cons hfirst ih

/-! ## Lines that follow the grammar are read without a fault -/

/-- Case lines join what is pending. -/
theorem CaseLines.run {lines : List Line} {cs : List (Case × Span)} (h : CaseLines lines cs)
    (p : Pending) :
    Document.run (some p) lines = (some { p with cases := cs.reverse ++ p.cases }, .empty) := by
  induction h generalizing p with
  | nil => rfl
  | cons hkind hparse _ ih =>
    rw [run_cons, (Step.case p _ hkind hparse).eq, ih]
    simp

/-- A block without braces leaves its function pending, and one with braces completes it; neither is
reported. -/
theorem Block.exists_run {lines : List Line} {d : Definition Span} (h : Block lines d)
    {pending : Option Pending} (hopen : isOpen pending = false) :
    ∃ next added, Document.run pending lines = (next, added) ∧ isOpen next = false ∧
      added.issues = [] ∧
      added.definitions ++ pendingDefinitions next = pendingDefinitions pending ++ [d] := by
  cases h with
  | plain hkind hparse hcases =>
    rw [run_cons, (Step.header _ hkind hparse).eq, hcases.run]
    refine ⟨_, _, rfl, rfl, ?_, ?_⟩
    · simp [hopen]
    · simp [Pending.definition?]
  | @braced header opening closing h lines cs hkind hparse hopening hcases hclosing =>
    have hopened := (Step.opening ⟨some h, header.span, [], false⟩ hopening rfl rfl).eq
    rw [run_cons, (Step.header _ hkind hparse).eq, run_cons, hopened, run_append, hcases.run,
      run_singleton, (Step.closing _ hclosing rfl).eq]
    refine ⟨_, _, rfl, rfl, ?_, ?_⟩
    · simp [hopen]
    · simp [Pending.definition?]

/-- Blocks are read without a fault and give the definitions they spell. -/
theorem Blocks.exists_run {lines : List Line} {ds : List (Definition Span)} (h : Blocks lines ds)
    {pending : Option Pending} (hopen : isOpen pending = false) :
    ∃ next added, Document.run pending lines = (next, added) ∧ isOpen next = false ∧
      added.issues = [] ∧
      added.definitions ++ pendingDefinitions next = pendingDefinitions pending ++ ds := by
  induction h generalizing pending with
  | nil => exact ⟨pending, .empty, rfl, hopen, rfl, by simp⟩
  | cons hblock _ ih =>
    obtain ⟨next, added, hrun, hnext, hissues, hdefinitions⟩ := hblock.exists_run hopen
    obtain ⟨last, more, hrest, hlast, hnone, hmore⟩ := ih hnext
    refine ⟨last, added ++ more, ?_, hlast, ?_, ?_⟩
    · rw [run_append, hrun, hrest]
    · rw [issues_append, hissues, hnone, List.append_nil]
    · rw [definitions_append, List.append_assoc, hmore, ← List.append_assoc, hdefinitions,
        List.append_assoc, List.singleton_append]

/-- Blocks give a document without faults and with the definitions they spell. -/
theorem Blocks.assemble {lines : List Line} {ds : List (Definition Span)} (h : Blocks lines ds) :
    (Document.assemble lines).issues = [] ∧ (Document.assemble lines).definitions = ds := by
  obtain ⟨next, added, hrun, hopen, hissues, hdefinitions⟩ := h.exists_run isOpen_none
  rw [Document.assemble, assembleFrom_eq, hrun]
  constructor
  · cases next with
    | none => simpa using hissues
    | some p => simp [hissues, issues_atEnd_some, show p.isOpen = false from hopen]
  · simpa using hdefinitions

/-! ## Lines that are read without a fault follow the grammar -/

/-- Where in the grammar the assembler stands after some lines: behind complete blocks that spell
the definitions added so far, and possibly inside one more block, which is what is pending. -/
inductive Position : List Line → Option Pending → List (Definition Span) → Prop
  | outside {done : List Line} {ds : List (Definition Span)} (hdone : Blocks done ds) :
    Position done none ds
  | plain {done lines : List Line} {ds : List (Definition Span)} {header : Line} {h : Header}
    {cs : List (Case × Span)} (hdone : Blocks done ds) (hkind : header.kind = .header)
    (hparse : Header.parse? header.text = some h) (hcases : CaseLines lines cs) :
    Position (done ++ header :: lines) (some ⟨some h, header.span, cs.reverse, false⟩) ds
  | braced {done lines : List Line} {ds : List (Definition Span)} {header opening : Line}
    {h : Header} {cs : List (Case × Span)} (hdone : Blocks done ds)
    (hkind : header.kind = .header) (hparse : Header.parse? header.text = some h)
    (hopening : opening.kind = .opening) (hcases : CaseLines lines cs) :
    Position (done ++ header :: opening :: lines)
      (some ⟨some h, header.span, cs.reverse, true⟩) ds

/-- Unless a brace is missing, the lines are complete blocks, the last of which is pending. -/
theorem Position.blocks {lines : List Line} {pending : Option Pending}
    {ds : List (Definition Span)} (h : Position lines pending ds)
    (hopen : isOpen pending = false) : Blocks lines (ds ++ pendingDefinitions pending) := by
  cases h with
  | outside hdone => simpa using hdone
  | plain hdone hkind hparse hcases =>
    simpa [Pending.definition?] using hdone.concat (.plain hkind hparse hcases)
  | braced => cases hopen

/-- What a step keeps: if nothing is reported, a line that is not blank leads to the next position
in the grammar. -/
theorem Position.step {lines : List Line} {pending next : Option Pending}
    {ds : List (Definition Span)} {line : Line} {added : Document Span}
    (h : Position lines pending ds) (hstep : Step line pending next added)
    (hblank : line.kind ≠ .blank) (hissues : added.issues = []) :
    Position (lines ++ [line]) next (ds ++ added.definitions) := by
  cases hstep with
  | blank hkind => exact absurd hkind hblank
  | header h' hkind hparse =>
    have hopen : isOpen pending = false := by
      rw [issues_beforeHeader] at hissues
      simpa using hissues
    rw [definitions_beforeHeader]
    exact .plain (h.blocks hopen) hkind hparse .nil
  | opening p hkind hopen hcases =>
    cases h with
    | plain hdone hheader hparse hlines =>
      obtain rfl := List.reverse_eq_nil_iff.mp hcases
      cases hlines
      simpa using Position.braced hdone hheader hparse hkind .nil
    | braced => cases hopen
  | closing p hkind hopen =>
    cases h with
    | plain => cases hopen
    | braced hdone hheader hparse hopening hlines =>
      have hclosed := hdone.concat (.braced hheader hparse hopening hlines hkind)
      simpa [Pending.definition?] using Position.outside hclosed
  | case p c hkind hparse =>
    cases h with
    | plain hdone hheader hparse' hlines =>
      simpa using Position.plain hdone hheader hparse' (hlines.concat hkind hparse)
    | braced hdone hheader hparse' hopening hlines =>
      simpa using Position.braced hdone hheader hparse' hopening (hlines.concat hkind hparse)
  -- Every other step reports its line.
  | malformedHeader => simp at hissues
  | strayOpening | extraOpening | strayClosing | strayCase | malformedCase => cases hissues

/-- What a run keeps: if nothing is reported up to the end, the lines are blocks that spell the
definitions of the document. -/
theorem Position.assembleFrom {lines : List Line} {pending : Option Pending}
    {ds : List (Definition Span)} (h : Position lines pending ds) {rest : List Line}
    (hblank : ∀ line ∈ rest, line.kind ≠ .blank)
    (hissues : (Document.assembleFrom pending rest).issues = []) :
    Blocks (lines ++ rest) (ds ++ (Document.assembleFrom pending rest).definitions) := by
  induction rest generalizing lines pending ds with
  | nil =>
    have hopen : isOpen pending = false := by
      cases pending with
      | none => rfl
      | some p =>
        rw [Document.assembleFrom, issues_atEnd_some] at hissues
        simpa using hissues
    rw [Document.assembleFrom, definitions_atEnd, List.append_nil]
    exact h.blocks hopen
  | cons line rest ih =>
    obtain ⟨hline, hrest⟩ := List.forall_mem_cons.mp hblank
    rw [assembleFrom_cons, issues_append, List.append_eq_nil_iff] at hissues
    have hnext := ih (h.step (step_spec pending line) hline hissues.1) hrest hissues.2
    simpa [assembleFrom_cons] using hnext

/-- The lines of a source text that are not blank follow the grammar exactly when nothing is
reported about the text; and they spell given definitions exactly when, besides, these are the
definitions of its document. -/
theorem faultless_iff_blocks (source : Text) :
    ((parse source).issues = [] ↔
        ∃ ds, Blocks ((Line.scan source).filter (·.kind ≠ .blank)) ds) ∧
      ∀ ds, Blocks ((Line.scan source).filter (·.kind ≠ .blank)) ds ↔
        (parse source).issues = [] ∧ (parse source).definitions = ds := by
  have hparse : parse source = assemble ((Line.scan source).filter (·.kind ≠ .blank)) :=
    (assembleFrom_filter_blank none _).symm
  have hblank : ∀ line ∈ (Line.scan source).filter (·.kind ≠ .blank), line.kind ≠ .blank :=
    fun line hline ↦ of_decide_eq_true (List.mem_filter.mp hline).2
  have hspelt (hissues : (parse source).issues = []) :
      Blocks ((Line.scan source).filter (·.kind ≠ .blank)) (parse source).definitions := by
    rw [hparse] at hissues ⊢
    exact (Position.outside .nil).assembleFrom hblank hissues
  refine ⟨⟨fun hissues ↦ ⟨_, hspelt hissues⟩, ?_⟩, fun ds ↦ ⟨fun h ↦ ?_, ?_⟩⟩
  · rintro ⟨ds, h⟩
    rw [hparse]
    exact h.assemble.1
  · rw [hparse]
    exact h.assemble
  · rintro ⟨hissues, rfl⟩
    exact hspelt hissues

end Document

end Lilac
