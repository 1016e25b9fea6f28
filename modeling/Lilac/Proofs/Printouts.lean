import Lilac.Proofs.Comments
import Lilac.Proofs.Grammar
import Lilac.Proofs.Listings
import Lilac.Proofs.Violations
import Mathlib.Algebra.GroupWithZero.Nat
import Mathlib.Data.List.Forall2

/-!
# Diagnostics of printed functions

A printed function takes one line for its header, one for each brace and one for each case, and an
empty line follows it. Functions in which no comment is made out are read back from their printed
text at these lines, every case behind its indentation. Checking the text therefore lists the
diagnostics of the functions themselves, in their order, each at the printed line of its case, and
nothing else.

About `check_document` and `format_function`. Specification: `SPEC_FULL.md`, sections 4.5 and 8.
-/

namespace Lilac

/-! ## Printed lines -/

namespace Case

variable {indent name : Text} {c : Case}

/-- Where a case is printed that takes the given line of a text. -/
def printedAt (indent name : Text) (number : Nat) (c : Case) : Span :=
  ⟨number, indent.length + 1, indent.length + 1 + (c.text name).length⟩

/-- The text of a case neither starts nor ends with a blank. -/
theorem WellFormed.tight_text (h : c.WellFormed) (hname : name.isName = true) :
    (c.text name).Tight := by
  obtain ⟨body, hbody, -, -⟩ := h.exists_layout
  rw [text, print?_eq hbody]
  exact tight_layout hname _ body

/-- Nothing is cut away from the text of a case in which no comment is made out. -/
theorem WellFormed.uncommented_text (h : c.WellFormed) (hclear : c.hasComment name = false) :
    (c.text name).uncommented = c.text name := by
  rw [hasComment, h.print?_eq_text, Option.any_some] at hclear
  simpa using hclear

private theorem WellFormed.ofPhysical_printed (h : c.WellFormed)
    (hindent : ∀ d ∈ indent, isBlank d = true) (hname : name.isName = true)
    (hclear : c.hasComment name = false) (number : Nat) :
    Line.ofPhysical number (indent ++ c.text name) =
      [⟨.case, c.text name, c.printedAt indent name number⟩] := by
  rw [h.ofPhysical hindent hname, h.uncommented_text hclear, (h.tight_text hname).trim_eq]
  simp [Line.starting, printedAt]

private theorem WellFormed.parse?_text (h : c.WellFormed) (hname : name.isName = true)
    (hclear : c.hasComment name = false) : parse? (c.text name) = some c := by
  have hparse := h.parse?_uncommented hname
  rwa [hclear, h.uncommented_text hclear, (h.tight_text hname).trim_eq] at hparse

end Case

namespace Function

/-- A function that is read back from its printed text: it is well formed, and no comment is made
out in the text of any of its cases. -/
structure Clear (f : Function) : Prop where
  wellFormed : f.WellFormed
  clear : ∀ c ∈ f.cases, c.hasComment f.header.name = false

/-- A function is clear if its header and cases can be read and its formal arguments hold neither a
quote nor two slashes in a row nor a line feed. -/
theorem Clear.of_parse? {f : Function} (hheader : ∃ line, Header.parse? line = some f.header)
    (hcases : ∀ c ∈ f.cases, ∃ line, Case.parse? line = some c)
    (hformals : ∀ c ∈ f.cases, ∀ p ∈ c.arguments, '"' ∉ p ∧ ¬['/', '/'] <:+: p ∧ '\n' ∉ p) :
    f.Clear := by
  obtain ⟨line, hline⟩ := hheader
  have hheader : f.header.WellFormed := Header.wellFormed_of_parse? hline
  have hcase (c : Case) (hc : c ∈ f.cases) : c.WellFormed := by
    obtain ⟨line, hline⟩ := hcases c hc
    exact Case.wellFormed_of_parse? hline
  constructor
  · exact ⟨hheader, fun c hc ↦ ⟨hcase c hc, fun p hp ↦ (hformals c hc p hp).2.2⟩⟩
  · intro c hc
    apply (hcase c hc).hasComment_eq_false _ hheader.name
    intro p hp
    exact ⟨(hformals c hc p hp).1, (hformals c hc p hp).2.1⟩

/-- The definition that a printed function amounts to if its header takes the given line of a
text. -/
def printedAt (indent : Text) (number : Nat) (f : Function) : Definition Span :=
  ⟨f, (Line.starting .header f.header.print number 1).span,
    f.cases.mapIdx fun i c ↦ c.printedAt indent f.header.name (number + 2 + i)⟩

/-- How many lines printed functions take, the empty ones behind them included. -/
def lineCount (fs : List Function) : Nat := (fs.map fun f ↦ f.cases.length + 4).sum

/-- The definitions that printed functions amount to if the first of them starts on the given
line. -/
def allPrintedAt (indent : Text) : Nat → List Function → List (Definition Span)
  | _, [] => []
  | number, f :: fs =>
    f.printedAt indent number :: allPrintedAt indent (number + (f.cases.length + 4)) fs

/-- Every printed function starts behind the lines of those before it. -/
theorem allPrintedAt_eq (indent : Text) (number : Nat) (fs : List Function) :
    allPrintedAt indent number fs =
      fs.zipIdx.map fun x ↦ x.1.printedAt indent (number + lineCount (fs.take x.2)) := by
  induction fs generalizing number with
  | nil => rfl
  | cons f fs ih =>
    rw [allPrintedAt, ih, List.zipIdx_cons, List.map_cons, List.zipIdx_succ, List.map_map]
    congr 1
    apply List.map_congr_left
    intro x _
    simp [lineCount, Nat.add_assoc]

private theorem length_textLines (indent : Text) (f : Function) :
    (f.textLines indent).length = f.cases.length + 3 := by
  simp [textLines]

end Function

/-! ## Printed blocks -/

section Pairs

variable {α β : Type} (g : Nat → α → β) (xs : List α)

private theorem map_fst_mapIdx : (xs.mapIdx fun i x ↦ (x, g i x)).map (·.1) = xs := by
  apply List.ext_getElem?
  intro i
  simp [Function.comp_def]

private theorem map_snd_mapIdx : (xs.mapIdx fun i x ↦ (x, g i x)).map (·.2) = xs.mapIdx g := by
  apply List.ext_getElem?
  intro i
  simp [Function.comp_def]

end Pairs

namespace Document

variable {indent name : Text}

/-- No line of a block is blank. -/
theorem Block.kind_ne_blank {lines : List Line} {d : Definition Span} (h : Block lines d) :
    ∀ line ∈ lines, line.kind ≠ .blank := by
  have hcases {ls : List Line} {cs : List (Case × Span)} (hls : CaseLines ls cs) :
      ∀ line ∈ ls, line.kind ≠ .blank := by
    induction hls with
    | nil => exact List.forall_mem_nil _
    | cons hkind _ _ ih => exact List.forall_mem_cons.mpr ⟨by simp [hkind], ih⟩
  cases h with
  | plain hkind _ hlines =>
    exact List.forall_mem_cons.mpr ⟨by simp [hkind], hcases hlines⟩
  | braced hkind _ hopening hlines hclosing =>
    simp only [List.forall_mem_cons, List.forall_mem_append]
    exact ⟨by simp [hkind], by simp [hopening], hcases hlines, by simp [hclosing],
      List.forall_mem_nil _⟩

/-- Printed cases are scanned as case lines, one after the other. -/
theorem caseLines_printed (hindent : ∀ d ∈ indent, isBlank d = true)
    (hname : name.isName = true) {cs : List Case}
    (h : ∀ c ∈ cs, c.WellFormed ∧ c.hasComment name = false) (number : Nat) :
    CaseLines (Line.ofPhysicals number (cs.map fun c ↦ indent ++ c.text name))
      (cs.mapIdx fun i c ↦ (c, c.printedAt indent name (number + i))) := by
  induction cs generalizing number with
  | nil => exact .nil
  | cons c cs ih =>
    obtain ⟨⟨hc, hclear⟩, hcs⟩ := List.forall_mem_cons.mp h
    have hnext : (fun i (c : Case) ↦ (c, c.printedAt indent name (number + (i + 1)))) =
        fun i c ↦ (c, c.printedAt indent name (number + 1 + i)) := by
      funext i c
      rw [Nat.add_right_comm, Nat.add_assoc]
    rw [List.map_cons, Line.ofPhysicals, hc.ofPhysical_printed hindent hname hclear,
      List.mapIdx_cons, hnext]
    exact .cons rfl (hc.parse?_text hname hclear) (ih hcs (number + 1))

/-- A printed function is scanned as a block in braces. -/
theorem block_printed (hindent : ∀ d ∈ indent, isBlank d = true) {f : Function} (h : f.Clear)
    (number : Nat) :
    Block (Line.ofPhysicals number (f.textLines indent)) (f.printedAt indent number) := by
  have hcases := caseLines_printed hindent h.wellFormed.header.name
    (fun c hc ↦ ⟨(h.wellFormed.cases c hc).1, h.clear c hc⟩) (number + 2)
  have hblock := @Block.braced (.starting .header f.header.print number 1)
    (.starting .opening ['{'] (number + 1) 1)
    (.starting .closing ['}'] (number + 2 + f.cases.length) 1) f.header _ _ rfl
    h.wellFormed.header.parse?_print rfl hcases rfl
  have hlines : f.textLines indent = [f.header.print, ['{']] ++
      (f.cases.map (fun c ↦ indent ++ c.text f.header.name) ++ [['}']]) := rfl
  rw [map_fst_mapIdx, map_snd_mapIdx] at hblock
  rw [hlines, Line.ofPhysicals_append, Line.ofPhysicals_append]
  simpa [Line.ofPhysicals, Line.ofPhysical_header h.wellFormed.header, Line.ofPhysical_opening,
    Line.ofPhysical_closing, Function.printedAt] using hblock

/-- Printed functions are scanned as blocks, with an empty line after each. -/
theorem blocks_printed (hindent : ∀ d ∈ indent, isBlank d = true) {fs : List Function}
    (h : ∀ f ∈ fs, f.Clear) (number : Nat) :
    Blocks ((Line.ofPhysicals number (fs.flatMap fun f ↦ f.textLines indent ++ [[]])).filter
        (·.kind ≠ .blank)) (Function.allPrintedAt indent number fs) := by
  induction fs generalizing number with
  | nil => exact .nil
  | cons f fs ih =>
    obtain ⟨hf, hfs⟩ := List.forall_mem_cons.mp h
    have hblock := block_printed hindent hf number
    have hkept : (Line.ofPhysicals number (f.textLines indent)).filter (·.kind ≠ .blank) =
        Line.ofPhysicals number (f.textLines indent) :=
      List.filter_eq_self.mpr fun line hline ↦ decide_eq_true (hblock.kind_ne_blank line hline)
    have hempty (n : Nat) : (Line.ofPhysicals n [[]]).filter (·.kind ≠ .blank) = [] := rfl
    have hnext : number + (f.textLines indent ++ [[]]).length = number + (f.cases.length + 4) := by
      rw [List.length_append, Function.length_textLines]
      rfl
    rw [List.flatMap_cons, Line.ofPhysicals_append, List.filter_append, Line.ofPhysicals_append,
      List.filter_append, hkept, hempty, List.append_nil, hnext]
    exact .cons hblock (ih hfs _)

/-- Printed functions have a text, and their definitions are read back from it at their printed
lines, without a fault. -/
theorem parse_printed (hindent : ∀ d ∈ indent, isBlank d = true ∧ d ≠ '\n') {fs : List Function}
    (h : ∀ f ∈ fs, f.Clear) :
    ∃ text, Function.printAll? indent fs = some text ∧ (parse text).issues = [] ∧
      (parse text).definitions = Function.allPrintedAt indent 1 fs := by
  have hblank : ∀ d ∈ indent, isBlank d = true := fun d hd ↦ (hindent d hd).1
  have hline : '\n' ∉ indent := fun hmem ↦ (hindent _ hmem).2 rfl
  have hformed : ∀ f ∈ fs, f.WellFormed := fun f hf ↦ (h f hf).wellFormed
  refine ⟨_, Function.printAll?_eq hformed indent, ?_⟩
  cases fs with
  | nil => exact ⟨rfl, rfl⟩
  | cons f fs =>
    have hblocks := blocks_printed hblank h 1
    rw [← Function.lines_printAll (List.cons_ne_nil f fs) hformed hline] at hblocks
    rw [parse, assemble, ← assembleFrom_filter_blank]
    exact hblocks.assemble

/-! ## Diagnostics of printed functions -/

private theorem pairwise_notAfter_finding? (source : Text) :
    ((parse source).definitions.filterMap Definition.finding?).Pairwise
      (Diagnostic.notAfter · ·) := by
  apply (pairwise_before_finding? source).imp
  intro a b hbefore
  exact Diagnostic.notAfter_iff.mpr (hbefore.imp_right (And.imp_right Int.le_of_lt))

/-- If nothing else is reported about a source text, checking it lists the diagnostics of its
functions in their order. -/
theorem check?_of_issues_eq_nil {source : Text} (h : (parse source).issues = []) {limit : Int}
    (hlimit : (parse source).definitions.length ≤ limit) :
    ((parse source).mapPlaces some).check? limit =
      some ((parse source).definitions.filterMap Definition.finding?) := by
  have hnonneg : 0 ≤ limit := by omega
  have hfindings : (parse source).findings =
      (parse source).definitions.filterMap Definition.finding? := by
    rw [findings, h, List.map_nil, List.nil_append]
  have hlength := List.length_filterMap_le Definition.finding? (parse source).definitions
  rw [check?_parse, check_eq_take source hnonneg, hfindings,
    List.mergeSort_of_pairwise (pairwise_notAfter_finding? source), List.take_of_length_le]
  omega

end Document

namespace Function

/-- How the diagnostic of a function is listed whose printed header takes the given line of a text:
as it is, and at the place where the case it tells of is printed. -/
structure ListedAs (indent : Text) (line : Nat) (f : Function) (x : Diagnostic) : Prop where
  diagnostic : f.diagnostic? = some { x with span := none }
  placed : ∃ i c text, x.caseIndex = some i ∧ f.cases[i]? = some c ∧
    c.print? f.header.name = some text ∧
    x.span = some ⟨line + 2 + i, indent.length + 1, indent.length + 1 + text.length⟩

/-- How the diagnostic of a function is listed is determined by the function and its line. -/
theorem ListedAs.eq {f : Function} {indent text : Text} {line i : Nat} {x d : Diagnostic} {c : Case}
    (h : f.ListedAs indent line x) (hd : f.diagnostic? = some d) (hi : d.caseIndex = some i)
    (hc : f.cases[i]? = some c) (htext : c.print? f.header.name = some text) :
    x = { d with
      span := some ⟨line + 2 + i, indent.length + 1, indent.length + 1 + text.length⟩ } := by
  obtain ⟨j, b, printed, hj, hb, hprinted, hspan⟩ := h.placed
  obtain rfl := Option.some.inj (hd.symm.trans h.diagnostic)
  obtain rfl := Option.some.inj (hj.symm.trans hi)
  obtain rfl := Option.some.inj (hb.symm.trans hc)
  obtain rfl := Option.some.inj (hprinted.symm.trans htext)
  rw [← hspan]

/-- The diagnostic of a printed function is listed at the place of its case. -/
theorem Clear.listedAs {f : Function} (h : f.Clear) {indent : Text} {line : Nat} {x : Diagnostic}
    (hx : (f.printedAt indent line).finding? = some x) : f.ListedAs indent line x := by
  obtain ⟨v, hv, rfl⟩ := Option.map_eq_some_iff.mp hx
  have hv : f.violation? = some v := hv
  refine ⟨by rw [diagnostic?, hv]; rfl, ?_⟩
  have hname : f.header.name ≠ [] := (Text.isName_iff.mp h.wellFormed.header.name).1
  obtain ⟨i, hi, hlt⟩ := exists_caseIndex hname hv
  have hcase := (h.wellFormed.cases _ (List.getElem_mem hlt)).1
  refine ⟨i, f.cases[i], _, hi, List.getElem?_eq_getElem hlt, hcase.print?_eq_text _, ?_⟩
  simp [Violation.toDiagnostic, Definition.placeOf, hi, printedAt, hlt, Case.printedAt]

end Function

/-- Elements that give something are related to what they give, in order, if each of them is. -/
theorem forall₂_filter_filterMap {α β : Type} {R : α → β → Prop} {p : α → Bool} {g : α → Option β}
    {xs : List α} (hp : ∀ x ∈ xs, p x = (g x).isSome)
    (hg : ∀ x ∈ xs, ∀ y, g x = some y → R x y) :
    List.Forall₂ R (xs.filter p) (xs.filterMap g) := by
  induction xs with
  | nil => exact .nil
  | cons x xs ih =>
    obtain ⟨hpx, hpxs⟩ := List.forall_mem_cons.mp hp
    obtain ⟨hgx, hgxs⟩ := List.forall_mem_cons.mp hg
    have hrest := ih hpxs hgxs
    cases hy : g x with
    | none => rwa [List.filter_cons_of_neg (by simp [hpx, hy]), List.filterMap_cons_none hy]
    | some y =>
      rw [List.filter_cons_of_pos (by simp [hpx, hy]), List.filterMap_cons_some hy]
      exact .cons (hgx y hy) hrest

namespace Document

/-- Functions whose headers and cases can be read, and whose formal arguments hold neither a quote
nor two slashes in a row nor a line feed, have a text under every indentation of blanks. Up to a
limit that leaves room for all of them, checking that text lists one diagnostic for each function
that has one, in their order and at the printed line of its case, and nothing else. -/
theorem printed_functions_are_diagnosed {indent : Text}
    (hindent : ∀ d ∈ indent, isBlank d = true ∧ d ≠ '\n') {fs : List Function}
    (hheaders : ∀ f ∈ fs, ∃ line, Header.parse? line = some f.header)
    (hcases : ∀ f ∈ fs, ∀ c ∈ f.cases, ∃ line, Case.parse? line = some c)
    (hformals : ∀ f ∈ fs, ∀ c ∈ f.cases, ∀ p ∈ c.arguments,
      '"' ∉ p ∧ ¬['/', '/'] <:+: p ∧ '\n' ∉ p)
    {limit : Int} (hlimit : fs.length ≤ limit) :
    ∃ text found, Function.printAll? indent fs = some text ∧
      ((parse text).mapPlaces some).check? limit = some found ∧
      List.Forall₂
        (fun x d ↦ x.1.ListedAs indent (1 + Function.lineCount (fs.take x.2)) d)
        (fs.zipIdx.filter (·.1.diagnostic?.isSome)) found := by
  have hclear : ∀ f ∈ fs, f.Clear := fun f hf ↦
    .of_parse? (hheaders f hf) (hcases f hf) (hformals f hf)
  obtain ⟨text, hprint, hissues, hdefinitions⟩ := parse_printed hindent hclear
  have hplaced := Function.allPrintedAt_eq indent 1 fs
  have hroom : (parse text).definitions.length ≤ limit := by
    rwa [hdefinitions, hplaced, List.length_map, List.length_zipIdx]
  have hcheck := check?_of_issues_eq_nil hissues hroom
  rw [hdefinitions, hplaced, List.filterMap_map] at hcheck
  refine ⟨text, _, hprint, hcheck, forall₂_filter_filterMap ?_ ?_⟩
  · intro x _
    simp [Function.diagnostic?, Definition.finding?, Function.printedAt]
  · intro x hx d hd
    exact (hclear x.1 (List.fst_mem_of_mem_zipIdx hx)).listedAs hd

/-- A function whose second case has another argument than its header, one without cases, and one
whose case has no argument. -/
def strayFunctions : List Function :=
  [⟨⟨['f'], [['a']], [['b']]⟩,
      [⟨[['a']], .literal ⟨.integer, .int 1⟩⟩, ⟨[['x']], .literal ⟨.string, .str ['/', '/']⟩⟩]⟩,
    ⟨⟨['g'], [['a']], [['b']]⟩, []⟩,
    ⟨⟨['h'], [['a']], [['b']]⟩, [⟨[], .literal ⟨.boolean, .bool true⟩⟩]⟩]

theorem strayFunctions_are_diagnosed :
    strayFunctions.map (fun f ↦ Header.parse? f.header.print) =
        strayFunctions.map (some ·.header) ∧
      (strayFunctions.flatMap (·.cases)).map some =
        ["f(a)=1;", "f(x)=\"//\";", "f()=true;"].map (fun t ↦ Case.parse? t.toList) ∧
      (strayFunctions.length : Int) ≤ 3 ∧
      ∃ text, Function.printAll? ['\t'] strayFunctions = some text ∧
        ((parse text).mapPlaces some).check? 3 =
          some [⟨.error, "Argument 0 in case 1 does not match function header", some 1,
              some ⟨4, 2, 14⟩⟩,
            ⟨.error, "Number of arguments in case 0 does not match function header", some 0,
              some ⟨13, 2, 13⟩⟩] := by
  have hheaders : strayFunctions.map (fun f ↦ Header.parse? f.header.print) =
      strayFunctions.map (some ·.header) := by
    decide
  have hcases : (strayFunctions.flatMap (·.cases)).map some =
      ["f(a)=1;", "f(x)=\"//\";", "f()=true;"].map (fun t ↦ Case.parse? t.toList) := by
    decide +kernel
  have hread : ∀ f ∈ strayFunctions, ∀ c ∈ f.cases, ∃ line, Case.parse? line = some c := by
    intro f hf c hc
    have hmem := List.mem_map_of_mem (f := some) (List.mem_flatMap.mpr ⟨f, hf, hc⟩)
    rw [hcases] at hmem
    obtain ⟨t, -, ht⟩ := List.mem_map.mp hmem
    exact ⟨t.toList, ht⟩
  have hfiltered : strayFunctions.zipIdx.filter (·.1.diagnostic?.isSome) =
      [(strayFunctions[0], 0), (strayFunctions[2], 2)] := by
    decide
  have hindent : ∀ d ∈ ['\t'], isBlank d = true ∧ d ≠ '\n' :=
    List.forall_mem_singleton.mpr ⟨rfl, by decide⟩
  have hlimit : (strayFunctions.length : Int) ≤ 3 := by decide
  obtain ⟨text, found, hprint, hcheck, hlisted⟩ := printed_functions_are_diagnosed hindent
    (fun f hf ↦ ⟨_, List.map_inj_left.mp hheaders f hf⟩) hread (by decide) hlimit
  rw [hfiltered] at hlisted
  rcases hlisted with _ | ⟨hfirst, _ | ⟨hsecond, ⟨⟩⟩⟩
  rw [hfirst.eq (d := ⟨.error, "Argument 0 in case 1 does not match function header", some 1, none⟩)
      (by decide) rfl rfl rfl,
    hsecond.eq
      (d := ⟨.error, "Number of arguments in case 0 does not match function header", some 0, none⟩)
      (by decide) rfl rfl rfl] at hcheck
  exact ⟨hheaders, hcases, hlimit, text, hprint, hcheck⟩

end Document

end Lilac
