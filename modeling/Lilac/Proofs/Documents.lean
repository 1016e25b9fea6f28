import Lilac.Proofs.Assembly
import Lilac.Proofs.Lines

/-!
# Documents read back

A printed function is read line by line: its header, the braces and each of its cases. Two readers
see the line of a case. The scanner looks for a comment from the start of the line, where a formal
argument may hold a quote that belongs to no string literal; the case reader looks for string
literals only in the body. Where the scanner makes out a comment that is none, the case is lost and
reported as malformed. All other cases come back, and so do all headers.

About `format_function` and `parse_document`. Specification: `SPEC_FULL.md`, section 8.
-/

namespace Lilac

namespace Case

/-! ## Printed cases -/

/-- Whether a comment is made out in the text of a case, which cuts the case short. -/
def hasComment (name : Text) (c : Case) : Bool :=
  (c.print? name).any fun text ↦ text.uncommented ≠ text

/-- The text of a case, if it has one. -/
def text (name : Text) (c : Case) : Text := (c.print? name).getD []

/-- A case that has a text is printed as it. -/
theorem WellFormed.print?_eq_text {c : Case} (h : c.WellFormed) (name : Text) :
    c.print? name = some (c.text name) := by
  obtain ⟨body, hbody, -, -⟩ := h.exists_layout
  rw [text, print?_eq hbody]
  rfl

/-- The formal arguments of a case hold no line feed. -/
def OneLine (c : Case) : Prop := ∀ p ∈ c.arguments, '\n' ∉ p

private theorem WellFormed.not_mem_text {c : Case} (h : c.WellFormed) (hline : c.OneLine)
    {name : Text} (hname : name.isName = true) : '\n' ∉ c.text name := by
  obtain ⟨body, hbody, hfragment, -⟩ := h.exists_layout
  have harguments : '\n' ∉ Text.join [',', ' '] c.arguments :=
    Text.not_mem_join (by decide) hline
  rw [text, print?_eq hbody, Option.getD_some, layout]
  simp only [List.mem_append, List.mem_cons, not_or]
  exact ⟨(Text.fragment_of_isName hname).oneLine, by decide, harguments, by decide, by decide,
    by decide, by decide, hfragment.oneLine, by decide, List.not_mem_nil⟩

/-- A printed case is read back up to the comment made out in it, so it is lost if there is one. -/
theorem WellFormed.parse?_uncommented {c : Case} (h : c.WellFormed) {name : Text}
    (hname : name.isName = true) :
    parse? (c.text name).uncommented.trim = if c.hasComment name then none else some c := by
  obtain ⟨body, hbody, hfragment, hparse⟩ := h.exists_layout
  have htight := tight_layout hname (Text.join [',', ' '] c.arguments) body
  have hunended := Text.unended_join fun p hp ↦ (h.formals.piece p hp).2.2
  rw [hasComment, text, print?_eq hbody, Option.getD_some, Option.any_some]
  generalize hL : layout name (Text.join [',', ' '] c.arguments) body = L at *
  split
  · next hcomment =>
    have hpre : L.uncommented <+: L := Text.uncommentedFrom_isPrefix .outside L
    have htrim : L.uncommented.trim <+: L.uncommented := by
      rw [Text.trim, Text.trimLeft_eq_self (Text.head_of_isPrefix hpre htight.1)]
      exact Text.trimRight_isPrefix _
    subst hL
    refine parse?_eq_none_of_isPrefix hname hunended hfragment (Text.tight_trim _)
      (htrim.trans hpre) fun hall ↦ ?_
    -- If trimming left the whole text, the comment would be empty.
    rw [hall] at htrim
    exact of_decide_eq_true hcomment (hpre.eq_of_length_le htrim.length_le)
  · next hcomment =>
    have hsame : L.uncommented = L := by simpa using hcomment
    rw [hsame, htight.trim_eq, ← hL, hparse name hname]

/-- A printed case is scanned as one line, up to the comment made out in it. -/
theorem WellFormed.ofPhysical {c : Case} (h : c.WellFormed) {indent name : Text}
    (hindent : ∀ d ∈ indent, isBlank d = true) (hname : name.isName = true) (number : Nat) :
    Line.ofPhysical number (indent ++ c.text name) =
      [.starting .case (c.text name).uncommented.trim number (indent.length + 1)] := by
  obtain ⟨body, hbody, -, -⟩ := h.exists_layout
  rw [text, print?_eq hbody]
  exact Line.ofPhysical_case hindent hname _ body number

end Case

namespace Function

/-! ## Printed functions -/

/-- A function whose header and cases can be read back, each on its own line. -/
def WellFormed (f : Function) : Prop :=
  f.MadeOf Header.WellFormed fun c ↦ c.WellFormed ∧ c.OneLine

/-- What is read back of a printed function: its header and the cases in which no comment is made
out. -/
def uncommented (f : Function) : Function :=
  { f with cases := f.cases.filter fun c ↦ !c.hasComment f.header.name }

/-- The cases of a function that are lost when it is printed and read back. -/
def commented (f : Function) : List Case := f.cases.filter (·.hasComment f.header.name)

private theorem commented_eq_nil_iff {f : Function} :
    f.commented = [] ↔ ∀ c ∈ f.cases, c.hasComment f.header.name = false := by
  simp [commented, List.filter_eq_nil_iff]

private theorem uncommented_eq_self {f : Function}
    (h : ∀ c ∈ f.cases, c.hasComment f.header.name = false) : f.uncommented = f := by
  have hcases : f.cases.filter (fun c ↦ !c.hasComment f.header.name) = f.cases := by
    rw [List.filter_eq_self]
    intro c hc
    rw [h c hc]
    rfl
  rw [uncommented, hcases]

/-- The lines of a function, if it has a text. -/
def textLines (indent : Text) (f : Function) : List Text :=
  f.header.print :: ['{'] :: f.cases.map (fun c ↦ indent ++ c.text f.header.name) ++ [['}']]

/-- The text of a function, if it has one: its lines with a line feed after each. -/
def text (indent : Text) (f : Function) : Text := Text.join ['\n'] (f.textLines indent) ++ ['\n']

/-- A well-formed function has a text. -/
theorem WellFormed.print?_eq {f : Function} (h : f.WellFormed) (indent : Text) :
    f.print? indent = some (f.text indent) := by
  have hcases : f.cases.mapM (fun c ↦ (c.print? f.header.name).map (indent ++ ·)) =
      some (f.cases.map fun c ↦ indent ++ c.text f.header.name) := by
    refine mapM_eq_some_map fun c hc ↦ ?_
    rw [(h.cases c hc).1.print?_eq_text]
    rfl
  rw [print?, lines?, hcases]
  rfl

/-- Well-formed functions have a text. -/
theorem printAll?_eq {fs : List Function} (h : ∀ f ∈ fs, f.WellFormed) (indent : Text) :
    printAll? indent fs = some (Text.join ['\n'] (fs.map (text indent))) := by
  rw [printAll?, mapM_eq_some_map fun f hf ↦ (h f hf).print?_eq indent]
  rfl

private theorem WellFormed.not_mem_textLines {f : Function} (h : f.WellFormed) {indent : Text}
    (hindent : '\n' ∉ indent) : ∀ raw ∈ f.textLines indent, '\n' ∉ raw := by
  have hheader : '\n' ∉ f.header.print := fun hmem ↦
    absurd (h.header.mem_print '\n' hmem) (by decide)
  have hcases : ∀ raw ∈ f.cases.map (fun c ↦ indent ++ c.text f.header.name), '\n' ∉ raw := by
    intro raw hraw
    obtain ⟨c, hc, rfl⟩ := List.mem_map.mp hraw
    obtain ⟨hcase, hline⟩ := h.cases c hc
    rw [List.mem_append, not_or]
    exact ⟨hindent, hcase.not_mem_text hline h.header.name⟩
  rw [textLines]
  simp only [List.cons_append, List.forall_mem_cons, List.forall_mem_append]
  exact ⟨hheader, by decide, hcases, by decide, List.forall_mem_nil _⟩

/-- A printed function is cut into its lines and an empty line after them. -/
theorem WellFormed.lines_text {f : Function} (h : f.WellFormed) {indent : Text}
    (hindent : '\n' ∉ indent) : (f.text indent).lines = f.textLines indent ++ [[]] := by
  have hne : f.textLines indent ≠ [] := List.cons_ne_nil _ _
  rw [text, Text.lines, Text.pieces_append, Text.pieces_join hne (h.not_mem_textLines hindent)]
  rfl

/-- Printed functions are cut into the lines of each and an empty line after them. -/
theorem lines_printAll {fs : List Function} (hne : fs ≠ []) (h : ∀ f ∈ fs, f.WellFormed)
    {indent : Text} (hindent : '\n' ∉ indent) :
    Text.lines (Text.join ['\n'] (fs.map (text indent))) =
      fs.flatMap fun f ↦ f.textLines indent ++ [[]] := by
  have hlines : ∀ f ∈ fs, (f.text indent).lines = f.textLines indent ++ [[]] :=
    fun f hf ↦ (h f hf).lines_text hindent
  rw [Text.lines, Text.pieces_join_flatMap (mt List.map_eq_nil_iff.mp hne), List.flatMap_map,
    List.flatMap_def, List.flatMap_def]
  exact congrArg List.flatten (List.map_congr_left hlines)

end Function

namespace Document

/-! ## Reading printed functions -/

variable {indent name : Text}

/-- The functions of a document are well formed. -/
theorem wellFormed_of_mem_functions {source : Text} :
    ∀ f ∈ (parse source).functions, f.WellFormed := by
  refine madeOf_assemble (fun line _ h hh ↦ Header.wellFormed_of_parse? hh) ?_
  intro line hline c hc
  exact ⟨Case.wellFormed_of_parse? hc,
    fun p hp hfeed ↦ Line.oneLine_of_mem_scan hline ((Case.infix_of_parse? hc p hp).subset hfeed)⟩

/-- Whatever is read is printable, however unbalanced the text: a term, an argument, the body of a
case and the bodies of all cases of a document are well formed, nest no more deeply than the limit
and have a text. -/
theorem printable_of_read :
    (∀ text t, Term.parse? text = some t → t.Printable) ∧
    (∀ text t, some t ∈ Term.parseArguments text → t.Printable) ∧
    (∀ line c, Case.parse? line = some c → c.body.Printable) ∧
    ∀ source, ∀ f ∈ (parse source).functions, ∀ c ∈ f.cases, c.body.Printable := by
  refine ⟨fun text t ↦ Term.printable_of_parse?, ?_, ?_, ?_⟩
  · intro text t ht
    obtain ⟨p, -, hp⟩ := List.mem_map.mp ht
    exact Term.printable_of_parse? hp
  · intro line c hc
    have h := Case.wellFormed_of_parse? hc
    exact h.body.printable h.depth
  · intro source f hf c hc
    have h := ((wellFormed_of_mem_functions f hf).cases c hc).1
    exact h.body.printable h.depth

/-- A string that is never ended, and a body with a parenthesis that is never closed. -/
theorem printable_of_read_unbalanced :
    Term.parse? "f(g(), \"x)".toList = some (.call ['f'] [some (.call ['g'] []), none]) ∧
      Term.Printable (.call ['f'] [some (.call ['g'] []), none]) ∧
      (parse "func f a -> b\nf(a) = f(g(), ();".toList).functions =
        [⟨⟨['f'], [['a']], [['b']]⟩, [⟨[['a']], .call ['f'] [some (.call ['g'] []), none]⟩]⟩] ∧
      ∀ f ∈ (parse "func f a -> b\nf(a) = f(g(), ();".toList).functions,
        ∀ c ∈ f.cases, c.body.Printable := by
  have hread : Term.parse? "f(g(), \"x)".toList =
      some (.call ['f'] [some (.call ['g'] []), none]) := by
    decide +kernel
  have hfunctions : (parse "func f a -> b\nf(a) = f(g(), ();".toList).functions =
      [⟨⟨['f'], [['a']], [['b']]⟩, [⟨[['a']], .call ['f'] [some (.call ['g'] []), none]⟩]⟩] := by
    decide +kernel
  exact ⟨hread, printable_of_read.1 _ _ hread, hfunctions, printable_of_read.2.2.2 _⟩

/-- Reading a printed case adds it to an open function, or reports it if a comment is made out in
it. -/
theorem exists_run_case (hindent : ∀ d ∈ indent, isBlank d = true) (hname : name.isName = true)
    {c : Case} (h : c.WellFormed) (p : Pending) (number : Nat) :
    ∃ span, run (some p) (Line.ofPhysical number (indent ++ c.text name)) =
      if c.hasComment name then (some p, .fault .malformedCase span)
      else (some { p with cases := (c, span) :: p.cases }, .empty) := by
  refine ⟨(Line.starting .case (c.text name).uncommented.trim number (indent.length + 1)).span, ?_⟩
  have hparse := h.parse?_uncommented hname
  rw [h.ofPhysical hindent hname, run_singleton]
  dsimp only [step, Line.starting, onCase]
  cases hcomment : c.hasComment name with
  | true =>
    rw [hcomment, if_pos rfl] at hparse
    rw [hparse, if_pos rfl]
  | false =>
    rw [hcomment, if_neg Bool.false_ne_true] at hparse
    rw [hparse, if_neg Bool.false_ne_true]

/-- Reading printed cases adds those in which no comment is made out to an open function, and
reports the others. -/
theorem exists_run_cases (hindent : ∀ d ∈ indent, isBlank d = true) (hname : name.isName = true)
    {cs : List Case} (h : ∀ c ∈ cs, c.WellFormed) (p : Pending) (number : Nat) :
    ∃ kept added,
      run (some p) (Line.ofPhysicals number (cs.map fun c ↦ indent ++ c.text name)) =
        (some { p with cases := kept ++ p.cases }, added) ∧
      kept.reverse.map (·.1) = cs.filter (fun c ↦ !c.hasComment name) ∧
      added.functions = [] ∧
      added.issues.map (·.fault) =
        (cs.filter (·.hasComment name)).map fun _ ↦ Fault.malformedCase := by
  induction cs generalizing p number with
  | nil => exact ⟨[], .empty, rfl, rfl, rfl, rfl⟩
  | cons c cs ih =>
    obtain ⟨hc, hcs⟩ := List.forall_mem_cons.mp h
    obtain ⟨span, hstep⟩ := exists_run_case hindent hname hc p number
    rw [List.map_cons, Line.ofPhysicals, run_append, hstep]
    cases hcomment : c.hasComment name with
    | true =>
      obtain ⟨kept, added, hrun, hkept, hnone, hissues⟩ := ih hcs p (number + 1)
      refine ⟨kept, .fault .malformedCase span ++ added, ?_, ?_, ?_, ?_⟩
      · rw [if_pos rfl, hrun]
      · simp [hcomment, hkept]
      · rw [functions_append, hnone]
        rfl
      · rw [issues_append, List.map_append, hissues]
        simp [hcomment, fault]
    | false =>
      obtain ⟨kept, added, hrun, hkept, hnone, hissues⟩ :=
        ih hcs { p with cases := (c, span) :: p.cases } (number + 1)
      refine ⟨kept ++ [(c, span)], added, ?_, ?_, hnone, ?_⟩
      · rw [if_neg Bool.false_ne_true, hrun]
        simp
      · simp [hcomment, ← hkept]
      · simp [hcomment, hissues]

/-- Reading a printed header and an opening brace leaves an open function pending. -/
theorem exists_run_opened {h : Header} (hh : h.WellFormed) (number : Nat) :
    ∃ span, run none (Line.ofPhysicals number [h.print, ['{']]) =
      (some ⟨some h, span, [], true⟩, .empty) := by
  refine ⟨(Line.starting .header h.print number 1).span, ?_⟩
  rw [Line.ofPhysicals, Line.ofPhysicals, Line.ofPhysicals, Line.ofPhysical_header hh,
    Line.ofPhysical_opening, List.append_nil, run_append, run_singleton, run_singleton]
  simp [step, Line.starting, onHeader, hh.parse?_print, beforeHeader, onOpening]

/-- Reading a closing brace and an empty line completes an open function. -/
theorem run_closed {p : Pending} (h : p.isOpen = true) (number : Nat) :
    run (some p) (Line.ofPhysicals number [['}'], []]) = (none, p.finish) := by
  rw [Line.ofPhysicals, Line.ofPhysicals, Line.ofPhysicals, Line.ofPhysical_closing,
    Line.ofPhysical_blank, List.append_nil, run_append, run_singleton, run_singleton]
  simp [step, Line.starting, onClosing, h]

/-- Reading a printed function gives it without the cases in which a comment is made out, and
reports those. -/
theorem exists_run_function (hindent : ∀ d ∈ indent, isBlank d = true) {f : Function}
    (h : f.WellFormed) (number : Nat) :
    ∃ added, run none (Line.ofPhysicals number (f.textLines indent ++ [[]])) = (none, added) ∧
      added.functions = [f.uncommented] ∧
      added.issues.map (·.fault) = f.commented.map fun _ ↦ Fault.malformedCase := by
  obtain ⟨span, hopened⟩ := exists_run_opened h.header number
  obtain ⟨kept, added, hcases, hkept, hnone, hissues⟩ := exists_run_cases hindent h.header.name
    (fun c hc ↦ (h.cases c hc).1) ⟨some f.header, span, [], true⟩ (number + 2)
  have hlines : f.textLines indent ++ [[]] = [f.header.print, ['{']] ++
      (f.cases.map (fun c ↦ indent ++ c.text f.header.name) ++ [['}'], []]) := by
    simp [Function.textLines]
  rw [hlines, Line.ofPhysicals_append, Line.ofPhysicals_append, run_append, run_append, hopened]
  dsimp only [List.length_cons, List.length_nil]
  rw [hcases, run_closed rfl]
  refine ⟨_, rfl, ?_, ?_⟩
  · rw [empty_append, functions_append, hnone, List.nil_append, Pending.functions_finish rfl,
      List.append_nil, hkept]
    rfl
  · rw [empty_append, issues_append, Pending.issues_finish, List.append_nil, hissues]
    rfl

/-- Reading printed functions gives each of them without the cases in which a comment is made out,
and reports those. -/
theorem exists_run_functions (hindent : ∀ d ∈ indent, isBlank d = true) {fs : List Function}
    (h : ∀ f ∈ fs, f.WellFormed) (number : Nat) :
    ∃ added,
      run none (Line.ofPhysicals number (fs.flatMap fun f ↦ f.textLines indent ++ [[]])) =
        (none, added) ∧
      added.functions = fs.map Function.uncommented ∧
      added.issues.map (·.fault) =
        (fs.flatMap Function.commented).map fun _ ↦ Fault.malformedCase := by
  induction fs generalizing number with
  | nil => exact ⟨.empty, rfl, rfl, rfl⟩
  | cons f fs ih =>
    obtain ⟨hf, hfs⟩ := List.forall_mem_cons.mp h
    obtain ⟨first, hfirst, hfunction, hissue⟩ := exists_run_function hindent hf number
    obtain ⟨rest, hrest, hfunctions, hissues⟩ :=
      ih hfs (number + (f.textLines indent ++ [[]]).length)
    refine ⟨first ++ rest, ?_, ?_, ?_⟩
    · rw [List.flatMap_cons, Line.ofPhysicals_append, run_append, hfirst, hrest]
    · rw [functions_append, hfunction, hfunctions, List.map_cons, List.singleton_append]
    · rw [issues_append, List.map_append, hissue, hissues, List.flatMap_cons, List.map_append]

/-- Well-formed functions have a text. Reading it gives each of them without the cases in which a
comment is made out, and reports exactly those. -/
theorem exists_parse_printAll (hindent : ∀ d ∈ indent, isBlank d = true ∧ d ≠ '\n')
    {fs : List Function} (h : ∀ f ∈ fs, f.WellFormed) :
    ∃ text, Function.printAll? indent fs = some text ∧
      (parse text).functions = fs.map Function.uncommented ∧
      (parse text).issues.map (·.fault) =
        (fs.flatMap Function.commented).map fun _ ↦ Fault.malformedCase := by
  have hblank : ∀ d ∈ indent, isBlank d = true := fun d hd ↦ (hindent d hd).1
  have hline : '\n' ∉ indent := fun hmem ↦ (hindent _ hmem).2 rfl
  refine ⟨_, Function.printAll?_eq h indent, ?_⟩
  by_cases hne : fs = []
  · subst hne
    exact ⟨rfl, rfl⟩
  · obtain ⟨added, hrun, hfunctions, hissues⟩ := exists_run_functions hblank h 1
    rw [parse, Line.scan, Function.lines_printAll hne h hline, assemble, assembleFrom_eq, hrun]
    dsimp only [atEnd]
    rw [append_empty]
    exact ⟨hfunctions, hissues⟩

/-- Printed functions are read back without a fault exactly when no comment is made out in the text
of any of their cases. -/
theorem parse_printAll_eq_iff (hindent : ∀ d ∈ indent, isBlank d = true ∧ d ≠ '\n')
    {fs : List Function} (h : ∀ f ∈ fs, f.WellFormed) :
    ∃ text, Function.printAll? indent fs = some text ∧
      ((parse text).functions = fs ∧ (parse text).issues = [] ↔
        ∀ f ∈ fs, ∀ c ∈ f.cases, c.hasComment f.header.name = false) := by
  obtain ⟨text, hprint, hfunctions, hissues⟩ := exists_parse_printAll hindent h
  refine ⟨text, hprint, ?_⟩
  have hlost : (parse text).issues = [] ↔ ∀ f ∈ fs, f.commented = [] := by
    rw [← List.map_eq_nil_iff (f := fun x : Issue Span ↦ x.fault), hissues, List.map_eq_nil_iff,
      List.flatMap_eq_nil_iff]
  constructor
  · rintro ⟨-, hnone⟩ f hf
    exact Function.commented_eq_nil_iff.mp (hlost.mp hnone f hf)
  · intro hkeep
    constructor
    · have hsame : ∀ f ∈ fs, f.uncommented = id f := fun f hf ↦
        Function.uncommented_eq_self (hkeep f hf)
      rw [hfunctions, List.map_congr_left hsame, List.map_id]
    · exact hlost.mpr fun f hf ↦ Function.commented_eq_nil_iff.mpr (hkeep f hf)

/-- Whatever the source text, its functions have a text; they are read back from it without a fault
exactly when no comment is made out in the text of any of their cases. -/
theorem printed_functions_come_back_iff (source : Text) :
    ∃ text, Function.printAll? Function.standardIndent (parse source).functions = some text ∧
      ((parse text).functions = (parse source).functions ∧ (parse text).issues = [] ↔
        ∀ f ∈ (parse source).functions, ∀ c ∈ f.cases, c.hasComment f.header.name = false) :=
  parse_printAll_eq_iff (Text.forall_mem_of_all rfl) wellFormed_of_mem_functions

/-- A quote among the formal arguments hides the quotes of the body from the scanner, which then
takes the slashes of a string for a comment: the case is lost. -/
theorem quoted_formal_loses_case :
    (parse "func f a -> b\nf(\") = \"\\/\\/\";".toList).functions =
        [⟨⟨['f'], [['a']], [['b']]⟩, [⟨[['"']], .literal ⟨.string, .str ['/', '/']⟩⟩]⟩] ∧
      Function.printAll? Function.standardIndent
          [⟨⟨['f'], [['a']], [['b']]⟩, [⟨[['"']], .literal ⟨.string, .str ['/', '/']⟩⟩]⟩] =
        some "func f a -> b\n\x7b\n    f(\") = \"//\";\n\x7d\n".toList ∧
      (parse "func f a -> b\n\x7b\n    f(\") = \"//\";\n\x7d\n".toList).functions =
        [⟨⟨['f'], [['a']], [['b']]⟩, []⟩] ∧
      (parse "func f a -> b\n\x7b\n    f(\") = \"//\";\n\x7d\n".toList).issues =
        [⟨.malformedCase, ⟨3, 5, 13⟩⟩] := by
  decide +kernel

end Document

end Lilac
