import Lilac.Proofs.Names

/-!
# Headers

A header is spelt as the word `func`, a gap, its name, a gap, its inputs, an arrow and its outputs,
with optional blanks around the arrow. A text is read as a header exactly when it is such a
spelling, and no text has two.

A header is well formed if it has a name, inputs and outputs, all of them names. These are exactly
the headers that are read, and each is read back from its text, which is one of its spellings.

About `format_header` and `parse_header`. Specification: `SPEC_FULL.md`, sections 4.3 and 8.
-/

namespace Lilac

namespace Text

private theorem cutArrow?_append {a : Text} (h : '-' ∉ a) (b : Text) :
    cutArrow? (a ++ '-' :: '>' :: b) = some (a, b) := by
  induction a with
  | nil => rfl
  | cons c a ih =>
    obtain ⟨hc, ha⟩ := not_or.mp (mt List.mem_cons.mpr h)
    rw [List.cons_append, cutArrow?, ih ha]
    · rfl
    · exact fun _ he ↦ absurd he.symm hc

private theorem eq_of_cutArrow? {t a b : Text} (h : cutArrow? t = some (a, b)) :
    t = a ++ '-' :: '>' :: b := by
  fun_induction cutArrow? t generalizing a with
  | case1 => cases h
  | case2 t =>
    obtain ⟨rfl, rfl⟩ := Prod.mk.inj (Option.some.inj h)
    rfl
  | case3 c t _ ih =>
    obtain ⟨⟨before, after⟩, hcut, heq⟩ := Option.map_eq_some_iff.mp h
    obtain ⟨rfl, rfl⟩ := Prod.mk.inj heq
    rw [ih hcut, List.cons_append]

end Text

namespace Header

/-! ## Spellings -/

/-- How a header is spelt. -/
@[ext] structure Spelling where
  /-- What stands between the word `func` and the name. -/
  gap : Blanks
  gap_ne_nil : gap.text ≠ []
  name : Name
  /-- What stands between the name and the inputs. -/
  nameGap : Blanks
  nameGap_ne_nil : nameGap.text ≠ []
  inputs : NameList
  beforeArrow : Blanks
  afterArrow : Blanks
  outputs : NameList

namespace Spelling

variable (s : Spelling)

/-- The text of a spelling. -/
def text : Text :=
  ['f', 'u', 'n', 'c'] ++ s.gap.text ++ s.name.text ++ s.nameGap.text ++ s.inputs.text
    ++ s.beforeArrow.text ++ ['-', '>'] ++ s.afterArrow.text ++ s.outputs.text

/-- The header that is spelt. -/
def header : Header := ⟨s.name.text, s.inputs.names, s.outputs.names⟩

/-- What follows the inputs. -/
def arrow : Text := s.beforeArrow.text ++ '-' :: '>' :: (s.afterArrow.text ++ s.outputs.text)

/-- The text of a spelling, cut at its gaps. -/
theorem text_eq :
    s.text = 'f' :: 'u' :: 'n' :: 'c' :: (s.gap.text ++ (s.name.text
      ++ (s.nameGap.text ++ (s.inputs.text ++ s.arrow)))) := by
  simp [text, arrow]

private theorem ends_arrow : NameList.Ends s.arrow where
  noWord := s.beforeArrow.not_isWord_head (Text.forall_mem_head?_cons (by decide) _)
  noComma := by
    have hdash (t : Text) : (Text.trimLeft ('-' :: t)).head? = some '-' := rfl
    rw [arrow, Text.trimLeft_append_of_blank s.beforeArrow.blank, hdash]
    decide

/-- A gap that is not empty does not start with a word character. -/
theorem not_isWord_head_nameGap (t : Text) :
    ∀ c ∈ (s.nameGap.text ++ t).head?, isWord c = false :=
  Text.forall_mem_head?_append s.nameGap_ne_nil
    (fun c hc ↦ not_isWord_of_isBlank (s.nameGap.blank c hc)) t

/-- A spelling is read as its header. -/
theorem parse?_text : parse? s.text = some s.header := by
  have hleft : Text.trimLeft (s.gap.text ++ (s.name.text
      ++ (s.nameGap.text ++ (s.inputs.text ++ s.arrow)))) =
      s.name.text ++ (s.nameGap.text ++ (s.inputs.text ++ s.arrow)) :=
    Text.dropWhile_append_of_head s.gap.blank (s.name.not_isBlank_head _)
  have hstarts {b : Blanks} (hne : b.text ≠ []) (t : Text) :
      Text.startsBlank (b.text ++ t) = true := by
    obtain ⟨c, rest, hcons⟩ := List.exists_cons_of_ne_nil hne
    rw [hcons]
    exact b.blank c (by rw [hcons]; exact List.mem_cons_self)
  -- No dash stands in front of the arrow.
  have hcut : Text.cutArrow? (s.nameGap.text ++ (s.inputs.text ++ s.arrow)) =
      some (s.nameGap.text ++ (s.inputs.text ++ s.beforeArrow.text),
        s.afterArrow.text ++ s.outputs.text) := by
    have hinputs : '-' ∉ s.inputs.text := fun hc ↦ by
      refine s.inputs.of_mem_text (P := (· ≠ '-')) ?_ (by decide) ?_ '-' hc rfl
      · exact fun c hc ↦ ne_of_isWord hc (by decide)
      · rintro c hc rfl
        revert hc
        decide
    have hdash : '-' ∉ s.nameGap.text ++ (s.inputs.text ++ s.beforeArrow.text) := by
      rw [List.mem_append, List.mem_append, not_or, not_or]
      exact ⟨s.nameGap.not_mem (by decide), hinputs, s.beforeArrow.not_mem (by decide)⟩
    rw [← Text.cutArrow?_append hdash, arrow]
    simp
  have hinputs? : Text.names? (s.nameGap.text ++ (s.inputs.text ++ s.beforeArrow.text)) =
      some s.inputs.names :=
    Text.names?_eq_some_iff.mpr ⟨_, _, _, rfl, rfl⟩
  have houtputs? : Text.names? (s.afterArrow.text ++ s.outputs.text) = some s.outputs.names :=
    Text.names?_eq_some_iff.mpr ⟨s.afterArrow, s.outputs, Blanks.none, by simp [Blanks.none], rfl⟩
  have hends : Text.endsBlank (s.afterArrow.text ++ s.outputs.text) = false := by
    obtain ⟨c, hlast, hc⟩ := s.outputs.isWord_getLast
    rw [Text.endsBlank, List.getLast?_append, hlast]
    exact not_isBlank_of_isWord hc
  have hempty : s.name.text.isEmpty = false := List.isEmpty_eq_false_iff.mpr s.name.ne_nil
  rw [text_eq, parse?, parseDeclaration?]
  simp only [hleft, Text.takeWhile_append_of_head s.name.word (s.not_isWord_head_nameGap _),
    Text.dropWhile_append_of_head s.name.word (s.not_isWord_head_nameGap _), hcut,
    Option.bind_eq_bind, Option.bind_some, hinputs?, houtputs?, hends, hempty,
    hstarts s.gap_ne_nil, hstarts s.nameGap_ne_nil]
  rfl

/-- A spelling ends with a word character. -/
theorem isWord_getLast : ∃ c, s.text.getLast? = some c ∧ isWord c = true := by
  obtain ⟨c, hlast, hc⟩ := s.outputs.isWord_getLast
  exact ⟨c, by rw [text, List.getLast?_append, hlast, Option.some_or], hc⟩

/-- No text has two spellings. -/
theorem text_inj {s s' : Spelling} (h : s.text = s'.text) : s = s' := by
  simp only [text_eq, List.cons.injEq, true_and] at h
  obtain ⟨hgap, h⟩ := Text.append_inj_of_head s.gap.blank s'.gap.blank
    (s.name.not_isBlank_head _) (s'.name.not_isBlank_head _) h
  obtain ⟨hname, h⟩ := Text.append_inj_of_head s.name.word s'.name.word
    (s.not_isWord_head_nameGap _) (s'.not_isWord_head_nameGap _) h
  have hfirst (s : Spelling) : ∀ c ∈ (s.inputs.text ++ s.arrow).head?, isBlank c = false := by
    rw [NameList.text, List.append_assoc]
    exact s.inputs.first.not_isBlank_head _
  obtain ⟨hnameGap, h⟩ := Text.append_inj_of_head s.nameGap.blank s'.nameGap.blank
    (hfirst s) (hfirst s') h
  obtain ⟨hinputs, h⟩ := NameList.text_append_inj s.ends_arrow s'.ends_arrow h
  have hdash : ∀ t, ∀ c ∈ ('-' :: t).head?, isBlank c = false :=
    Text.forall_mem_head?_cons (by decide)
  obtain ⟨hbefore, h⟩ := Text.append_inj_of_head s.beforeArrow.blank s'.beforeArrow.blank
    (hdash _) (hdash _) h
  simp only [List.cons.injEq, true_and] at h
  have houtput (s : Spelling) : ∀ c ∈ s.outputs.text.head?, isBlank c = false :=
    s.outputs.first.not_isBlank_head _
  obtain ⟨hafter, h⟩ := Text.append_inj_of_head s.afterArrow.blank s'.afterArrow.blank
    (houtput s) (houtput s') h
  have hend : NameList.Ends [] := ⟨fun c hc ↦ (Option.not_mem_none c hc).elim, by decide⟩
  obtain ⟨houtputs, -⟩ := NameList.text_append_inj hend hend (congrArg (· ++ []) h)
  exact Spelling.ext (Blanks.ext hgap) (Name.ext hname) (Blanks.ext hnameGap) hinputs
    (Blanks.ext hbefore) (Blanks.ext hafter) houtputs

end Spelling

/-- What is read as a header has a spelling. -/
theorem exists_spelling {line : Text} {h : Header} (hread : parse? line = some h) :
    ∃ s : Spelling, s.text = line ∧ s.header = h := by
  unfold parse? at hread
  split at hread
  · next t =>
    simp only [parseDeclaration?, Option.bind_eq_bind, Option.bind_eq_some_iff] at hread
    obtain ⟨⟨before, after⟩, hcut, hlists⟩ := hread
    split at hlists
    · next hshape =>
      simp only [Bool.and_eq_true, Bool.not_eq_true', List.isEmpty_eq_false_iff] at hshape
      obtain ⟨⟨⟨hstart, hname⟩, hgap⟩, hend⟩ := hshape
      simp only [Option.bind_eq_some_iff, Option.some.injEq] at hlists
      obtain ⟨inputs, hinputs, outputs, houtputs, rfl⟩ := hlists
      obtain ⟨a, l, b, rfl, rfl⟩ := Text.names?_eq_some_iff.mp hinputs
      obtain ⟨a', m, b', rfl, rfl⟩ := Text.names?_eq_some_iff.mp houtputs
      have hlists := Text.eq_of_cutArrow? hcut
      have hinputs (u : Text) : ∀ c ∈ (l.text ++ u).head?, isBlank c = false := by
        rw [NameList.text, List.append_assoc]
        exact l.first.not_isBlank_head _
      -- The gap in front of the inputs is not empty, and nothing stands behind the outputs.
      have ha : a.text ≠ [] := by
        rw [hlists, List.append_assoc, List.append_assoc] at hgap
        exact Text.ne_nil_of_startsBlank (hinputs _) hgap
      have hb' : b'.text = [] := by
        rw [← List.append_assoc] at hend
        exact b'.eq_nil_of_endsBlank hend
      refine ⟨⟨⟨t.takeWhile isBlank, List.all_eq_true.mp List.all_takeWhile⟩, ?_,
        ⟨(Text.trimLeft t).takeWhile isWord, Text.isName_iff.mpr
          ⟨hname, List.all_eq_true.mp List.all_takeWhile⟩⟩, a, ha, l, b, a', m⟩, ?_, rfl⟩
      · rw [← List.takeWhile_append_dropWhile (p := isBlank) (l := t)] at hstart
        exact Text.ne_nil_of_startsBlank (Text.head_trimLeft t) hstart
      · have hsplit : t = t.takeWhile isBlank ++ ((Text.trimLeft t).takeWhile isWord
            ++ (Text.trimLeft t).dropWhile isWord) := by
          rw [List.takeWhile_append_dropWhile]
          exact List.takeWhile_append_dropWhile.symm
        conv => rhs; rw [hsplit, hlists, hb']
        simp [Spelling.text]
    · cases hlists
  · cases hread

/-- A text is read as a header exactly when it has a spelling of it. -/
theorem parse?_eq_some_iff {line : Text} {h : Header} :
    parse? line = some h ↔ ∃ s : Spelling, s.text = line ∧ s.header = h := by
  constructor
  · exact exists_spelling
  · rintro ⟨s, rfl, rfl⟩
    exact s.parse?_text

/-! ## Well-formed headers -/

/-- A header with a name and with at least one input and one output, all of them names. -/
structure WellFormed (h : Header) : Prop where
  name : h.name.isName = true
  inputs : Text.AreNames h.inputs
  outputs : Text.AreNames h.outputs

private theorem Spelling.wellFormed_header (s : Spelling) : s.header.WellFormed where
  name := s.name.isName
  inputs := ⟨List.cons_ne_nil _ _, s.inputs.isName_of_mem_names⟩
  outputs := ⟨List.cons_ne_nil _ _, s.outputs.isName_of_mem_names⟩

/-- Only well-formed headers are read. -/
theorem wellFormed_of_parse? {t : Text} {h : Header} (ht : parse? t = some h) : h.WellFormed := by
  obtain ⟨s, -, rfl⟩ := exists_spelling ht
  exact s.wellFormed_header

/-- What stands in the text of a header after the word `func`. -/
theorem print_eq (h : Header) :
    h.print = 'f' :: 'u' :: 'n' :: 'c' :: ' ' :: (h.name ++ ' ' :: (Text.join [',', ' '] h.inputs
      ++ ' ' :: '-' :: '>' :: ' ' :: Text.join [',', ' '] h.outputs)) := by
  simp [print]

/-- The text of a well-formed header is one of its spellings. -/
theorem WellFormed.exists_spelling {h : Header} (hh : h.WellFormed) :
    ∃ s : Spelling, s.text = h.print ∧ s.header = h := by
  obtain ⟨l, hl, hinputs⟩ := hh.inputs.exists_nameList
  obtain ⟨m, hm, houtputs⟩ := hh.outputs.exists_nameList
  refine ⟨⟨.space, List.cons_ne_nil _ _, ⟨h.name, hh.name⟩, .space, List.cons_ne_nil _ _, l,
    .space, .space, m⟩, ?_, ?_⟩
  · simp [Spelling.text, print_eq, Blanks.space, hl, hm]
  · rw [Spelling.header, hinputs, houtputs]

/-- A well-formed header is read back from its text. -/
theorem WellFormed.parse?_print {h : Header} (hh : h.WellFormed) : parse? h.print = some h := by
  obtain ⟨s, htext, hheader⟩ := hh.exists_spelling
  rw [← htext, s.parse?_text, hheader]

/-- The text of a header ends with a word character. -/
theorem WellFormed.getLast_print {h : Header} (hh : h.WellFormed) :
    ∃ c, h.print.getLast? = some c ∧ isWord c = true := by
  obtain ⟨s, htext, -⟩ := hh.exists_spelling
  rw [← htext]
  exact s.isWord_getLast

/-- A character of the text of a header is a word character or one of its punctuation marks. -/
theorem WellFormed.mem_print {h : Header} (hh : h.WellFormed) :
    ∀ c ∈ h.print, isWord c = true ∨ c ∈ [' ', ',', '-', '>'] := by
  intro c hc
  have hjoin {ns : List Text} (hns : Text.AreNames ns) :=
    Text.of_mem_join_names (P := fun c ↦ isWord c = true ∨ c ∈ [' ', ',', '-', '>'])
      (fun c hc ↦ .inl hc) (.inr (by decide)) (.inr (by decide)) hns.2
  have hfunc : ∀ c ∈ ['f', 'u', 'n', 'c', ' '], isWord c = true ∨ c ∈ [' ', ',', '-', '>'] :=
    Text.forall_mem_of_all (by decide)
  have harrow : ∀ c ∈ [' ', '-', '>', ' '], isWord c = true ∨ c ∈ [' ', ',', '-', '>'] :=
    Text.forall_mem_of_all (by decide)
  rw [print] at hc
  simp only [List.mem_append] at hc
  rcases hc with (((hc | hc) | hc) | hc) | hc
  · exact hfunc c hc
  · exact .inl ((Text.isName_iff.mp hh.name).2 c hc)
  · rcases List.mem_cons.mp hc with rfl | hc
    · exact .inr (by decide)
    · exact hjoin hh.inputs c hc
  · exact harrow c hc
  · exact hjoin hh.outputs c hc

/-- A text is read as a header exactly when it is a spelling of that header. No text has two
spellings, and every header that is read is read back from its own text. -/
theorem read_exactly_when_spelt :
    (∀ line h, parse? line = some h ↔ ∃ s : Spelling, s.text = line ∧ s.header = h) ∧
      (∀ s s' : Spelling, s.text = s'.text → s = s') ∧
      ∀ line h, parse? line = some h → parse? h.print = some h := by
  refine ⟨fun line h ↦ parse?_eq_some_iff, fun s s' ↦ Spelling.text_inj, ?_⟩
  intro line h hread
  exact (wellFormed_of_parse? hread).parse?_print

/-- A header with an em space, a no-break space, a tab and line breaks as its blanks, and with
numerals and letters outside ASCII in its names. -/
theorem read_exactly_when_spelt_unusual_blanks :
    parse? "func\u2003\nⅧ\t\u0085a_1\u00a0,b ->½,\x0b²".toList =
        some ⟨['Ⅷ'], [['a', '_', '1'], ['b']], [['½'], ['²']]⟩ ∧
      (∃ s : Spelling, s.text = "func\u2003\nⅧ\t\u0085a_1\u00a0,b ->½,\x0b²".toList ∧
        s.header = ⟨['Ⅷ'], [['a', '_', '1'], ['b']], [['½'], ['²']]⟩ ∧
        ∀ s' : Spelling, s'.text = s.text → s' = s) ∧
      parse? "func Ⅷ a_1, b -> ½, ²".toList =
        some ⟨['Ⅷ'], [['a', '_', '1'], ['b']], [['½'], ['²']]⟩ := by
  obtain ⟨hiff, hunique, hback⟩ := read_exactly_when_spelt
  have hread : parse? "func\u2003\nⅧ\t\u0085a_1\u00a0,b ->½,\x0b²".toList =
      some ⟨['Ⅷ'], [['a', '_', '1'], ['b']], [['½'], ['²']]⟩ := by
    decide +kernel
  have hprint : print ⟨['Ⅷ'], [['a', '_', '1'], ['b']], [['½'], ['²']]⟩ =
      "func Ⅷ a_1, b -> ½, ²".toList := by
    decide
  obtain ⟨s, htext, hheader⟩ := (hiff _ _).mp hread
  refine ⟨hread, ⟨s, htext, hheader, fun s' ↦ hunique s' s⟩, ?_⟩
  rw [← hprint]
  exact hback _ _ hread

end Header

end Lilac
