import Lilac.Proofs.Lines

/-!
# Lines reach their readers

A line is classified by its shape alone, before anything is read from it. The shape never misleads:
a line that can be read as a header is a header line, one that can be read as a case is a case line,
and neither is split or cut. No text can be read as both, and the test of the shape looks at no
position that a text does not have.

About `scan`. Specification: `SPEC_FULL.md`, section 2.
-/

namespace Lilac

namespace Text

/-! ## The shape of headers -/

/-- The word that headers start with. -/
def headerWord : Text := ['f', 'u', 'n', 'c']

/-- Whether a text is a header by its shape, told by positions: it is the word alone, or starts with
the word and has a blank at the position behind it. There is no answer if that position is looked at
and the text does not have it. -/
def headerShape? (t : Text) : Option Bool :=
  if t = headerWord then some true
  else if headerWord.isPrefixOf t then t[headerWord.length]?.map isBlank
  else some false

/-- The shape of a header is always told, and the same way as by its first characters. -/
theorem headerShape?_eq (t : Text) : t.headerShape? = some t.looksLikeHeader := by
  unfold looksLikeHeader
  split
  · rfl
  · next c rest => simp [headerShape?, headerWord]
  · next hword hlonger =>
    have hstarts : headerWord.isPrefixOf t = false := by
      rw [← Bool.not_eq_true, List.isPrefixOf_iff_prefix]
      rintro ⟨rest, rfl⟩
      cases rest with
      | nil => exact hword rfl
      | cons c rest => exact hlonger c rest rfl
    have hne : t ≠ headerWord := hword
    rw [headerShape?, if_neg hne, hstarts]
    rfl

end Text

/-- A spelling has the shape of a header. -/
theorem Header.Spelling.looksLikeHeader_text (s : Spelling) : s.text.looksLikeHeader = true := by
  obtain ⟨c, rest, hcons⟩ := List.exists_cons_of_ne_nil s.gap_ne_nil
  rw [text_eq, hcons]
  exact s.gap.blank c (by rw [hcons]; exact List.mem_cons_self)

private theorem Header.Spelling.tight_text (s : Spelling) : s.text.Tight := by
  obtain ⟨c, hlast, hc⟩ := s.isWord_getLast
  constructor
  · rw [text_eq]
    exact Text.forall_mem_head?_cons (by decide) _
  · intro d hd
    rw [hlast] at hd
    obtain rfl := Option.some.inj hd
    exact not_isBlank_of_isWord hc

private theorem Case.Parts.looksLikeHeader_text (p : Parts) : p.text.looksLikeHeader = false := by
  rw [text_eq]
  exact Text.looksLikeHeader_append p.name.isName _

namespace Line

/-! ## Classification -/

/-- What can be read as a header is one header line. -/
theorem classify_of_header {text : Text} {h : Header} (hread : Header.parse? text = some h)
    (number column : Nat) :
    classify number column text = [.starting .header text number column] := by
  obtain ⟨s, rfl, -⟩ := Header.exists_spelling hread
  obtain ⟨c, hlast, hc⟩ := s.isWord_getLast
  apply classify_header s.looksLikeHeader_text
  rw [hlast]
  exact fun hbrace ↦ ne_of_isWord hc (by decide) (Option.some.inj hbrace)

/-- A trimmed text that can be read as a case is one case line. -/
theorem classify_of_case {text : Text} (htight : text.Tight) {c : Case}
    (hread : Case.parse? text = some c) (number column : Nat) :
    classify number column text = [.starting .case text number column] := by
  obtain ⟨p, -, hline⟩ := Case.exists_parts hread
  rw [htight.trim_eq, Case.Parts.text_eq] at hline
  rw [hline]
  exact classify_case p.name.isName _ number column

/-- No text can be read both as a header and as a case. -/
theorem header_or_case_eq_none (text : Text) :
    Header.parse? text = none ∨ Case.parse? text = none := by
  cases hheader : Header.parse? text with
  | none => exact .inl rfl
  | some h =>
    cases hcase : Case.parse? text with
    | none => exact .inr rfl
    | some c =>
      obtain ⟨s, rfl, -⟩ := Header.exists_spelling hheader
      obtain ⟨p, -, hline⟩ := Case.exists_parts hcase
      have hshape := p.looksLikeHeader_text
      rw [← hline, s.tight_text.trim_eq, s.looksLikeHeader_text] at hshape
      cases hshape

/-! ## Lines in a source -/

/-- Wherever a physical line stands in a source, it is scanned as a single line of the given kind
and text, from the column on where its content starts. -/
def ScannedAs (raw : Text) (kind : LineKind) (text : Text) : Prop :=
  ∀ (source : Text) (before after : List Text), source.lines = before ++ raw :: after →
    scan source = ofPhysicals 1 before
      ++ starting kind text (before.length + 1)
        ((content raw).length - (content raw).trimLeft.length + 1)
      :: ofPhysicals (before.length + 2) after

/-- A physical line whose trimmed content is classified as a single line is scanned as that one. -/
theorem scannedAs_of_classify {raw text : Text} {kind : LineKind}
    (htext : (content raw).trim = text)
    (h : ∀ number column, classify number column text = [starting kind text number column]) :
    ScannedAs raw kind text := by
  intro source before after hlines
  have hnumber : 1 + before.length = before.length + 1 := Nat.add_comm _ _
  rw [scan, hlines, ofPhysicals_append, ofPhysicals, ofPhysical, htext, h, hnumber]
  rfl

/-- A physical line whose trimmed content can be read as a header or as a case is scanned as a
single line of that kind with that text. No text can be read as both, and telling the shape of a
header looks at no position that the text does not have. -/
theorem parsable_lines_are_routed (text : Text) :
    (Header.parse? text ≠ none →
        ∀ raw, (content raw).trim = text → ScannedAs raw .header text) ∧
      (Case.parse? text ≠ none →
        ∀ raw, (content raw).trim = text → ScannedAs raw .case text) ∧
      (Header.parse? text = none ∨ Case.parse? text = none) ∧
      text.headerShape? = some text.looksLikeHeader := by
  refine ⟨?_, ?_, header_or_case_eq_none text, text.headerShape?_eq⟩
  · intro hread raw htext
    obtain ⟨h, hread⟩ := Option.ne_none_iff_exists'.mp hread
    exact scannedAs_of_classify htext (classify_of_header hread)
  · intro hread raw htext
    obtain ⟨c, hread⟩ := Option.ne_none_iff_exists'.mp hread
    have htight : text.Tight := htext ▸ Text.tight_trim _
    exact scannedAs_of_classify htext (classify_of_case htight hread)

/-- A function and a case that are called `func`, with a brace in a comment, and two slashes in a
string. -/
theorem parsable_lines_are_routed_func :
    (Header.parse? "func\u2003func a->b".toList ≠ none ∧
        (content "\tfunc\u2003func a->b // \x7b\r".toList).trim = "func\u2003func a->b".toList ∧
        ScannedAs "\tfunc\u2003func a->b // \x7b\r".toList .header "func\u2003func a->b".toList) ∧
      Case.parse? "func(a)=\"//\"; \x7b".toList ≠ none ∧
        (content "func(a)=\"//\"; \x7b\u00a0// b".toList).trim = "func(a)=\"//\"; \x7b".toList ∧
        ScannedAs "func(a)=\"//\"; \x7b\u00a0// b".toList .case "func(a)=\"//\"; \x7b".toList := by
  have hheader : Header.parse? "func\u2003func a->b".toList ≠ none := by decide
  have hcase : Case.parse? "func(a)=\"//\"; \x7b".toList ≠ none := by decide +kernel
  have hheaderLine : (content "\tfunc\u2003func a->b // \x7b\r".toList).trim =
      "func\u2003func a->b".toList := by
    decide
  have hcaseLine : (content "func(a)=\"//\"; \x7b\u00a0// b".toList).trim =
      "func(a)=\"//\"; \x7b".toList := by
    decide
  exact ⟨⟨hheader, hheaderLine, (parsable_lines_are_routed _).1 hheader _ hheaderLine⟩,
    hcase, hcaseLine, (parsable_lines_are_routed _).2.1 hcase _ hcaseLine⟩

end Line

end Lilac
