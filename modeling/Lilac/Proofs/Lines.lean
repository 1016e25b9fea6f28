import Lilac.Line
import Lilac.Proofs.Cases
import Lilac.Proofs.Headers

/-!
# Scanned lines

The text of a scanned line is cut out of one physical line, so it holds no line feed. The lines of
printed functions are scanned as what they were printed for: headers and braces as they stand, and
cases up to the comment that the scanner makes out in them, if any. A case with such a comment is
cut short and can no longer be read.

About `scan`. Specification: `SPEC_FULL.md`, section 2.
-/

namespace Lilac

namespace Text

/-! ## What scanning cuts away -/

private theorem dropReturns_isPrefix (t : Text) : dropReturns t <+: t := by
  rw [dropReturns, ← List.reverse_suffix, List.reverse_reverse]
  exact List.dropWhile_suffix _

/-- A text that does not end with a carriage return has none to drop. -/
theorem dropReturns_eq_self {t : Text} (h : t.getLast? ≠ some '\r') : dropReturns t = t := by
  rw [dropReturns, List.reverse_eq_iff]
  cases hr : t.reverse with
  | nil => rfl
  | cons c r =>
    have hc : c ≠ '\r' := by
      rintro rfl
      rw [← List.head?_reverse, hr] at h
      exact h rfl
    simp [hc]

/-- The word that looks like a header ends the text or is followed by a blank. -/
private theorem isBlank_of_looksLikeHeader {t : Text} (h : looksLikeHeader t = true) :
    ∀ c ∈ (t.dropWhile isWord).head?, isBlank c = true := by
  have hword : ∀ c ∈ ['f', 'u', 'n', 'c'], isWord c = true :=
    forall_mem_of_all (by decide)
  unfold looksLikeHeader at h
  split at h
  · have hdrop : ['f', 'u', 'n', 'c'].dropWhile isWord = [] := by decide
    rw [hdrop]
    exact fun c hc ↦ nomatch hc
  · next c rest =>
    have hc : isWord c = false := by
      cases hc : isWord c with
      | false => rfl
      | true => rw [not_isBlank_of_isWord hc] at h; cases h
    have hdrop : ('f' :: 'u' :: 'n' :: 'c' :: c :: rest).dropWhile isWord = c :: rest :=
      dropWhile_isWord_append hword hc rest
    rw [hdrop]
    intro d hd
    obtain rfl := Option.some.inj hd
    exact h
  · cases h

/-- A name in front of a parenthesis does not look like a header. -/
theorem looksLikeHeader_append {name : Text} (h : isName name = true) (t : Text) :
    looksLikeHeader (name ++ '(' :: t) = false := by
  rw [← Bool.not_eq_true]
  intro hlooks
  have hblank := isBlank_of_looksLikeHeader hlooks '('
  rw [dropWhile_isWord_append (isName_iff.mp h).2 (by decide)] at hblank
  exact absurd (hblank rfl) (by decide)

end Text

namespace Line

/-! ## Where lines come from -/

/-- What is neither comment nor line ending is a prefix of the physical line. -/
theorem content_isPrefix (raw : Text) : content raw <+: raw :=
  (Text.uncommentedFrom_isPrefix .outside _).trans (Text.dropReturns_isPrefix raw)

/-- Classifying a text gives lines that are cut out of it. -/
private theorem text_infix_of_mem_classify {number column : Nat} {text : Text} {line : Line}
    (h : line ∈ classify number column text) : line.text <:+: text := by
  unfold classify at h
  split at h
  · rw [List.mem_singleton.mp h]
    exact List.nil_infix
  split at h
  · rw [List.mem_singleton.mp h]
    exact List.infix_rfl
  split at h
  · rw [List.mem_singleton.mp h]
    exact List.infix_rfl
  split at h
  · split at h
    · next hlast =>
      obtain ⟨front, rfl⟩ := List.getLast?_eq_some_iff.mp hlast
      rw [List.dropLast_concat] at h
      rcases List.mem_cons.mp h with rfl | h
      · exact ((Text.trimRight_isPrefix front).trans (List.prefix_append _ _)).isInfix
      · rw [List.mem_singleton.mp h]
        exact (List.suffix_append _ _).isInfix
    · rw [List.mem_singleton.mp h]
      exact List.infix_rfl
  · rw [List.mem_singleton.mp h]
    exact List.infix_rfl

private theorem text_infix_of_mem_ofPhysical {number : Nat} {raw : Text} {line : Line}
    (h : line ∈ ofPhysical number raw) : line.text <:+: raw :=
  (text_infix_of_mem_classify h).trans
    ((Text.trim_isInfix _).trans (content_isPrefix raw).isInfix)

private theorem exists_of_mem_ofPhysicals {number : Nat} {raws : List Text} {line : Line}
    (h : line ∈ ofPhysicals number raws) : ∃ raw ∈ raws, line.text <:+: raw := by
  induction raws generalizing number with
  | nil => cases h
  | cons raw rest ih =>
    rcases List.mem_append.mp h with h | h
    · exact ⟨raw, List.mem_cons_self, text_infix_of_mem_ofPhysical h⟩
    · obtain ⟨other, hother, hcut⟩ := ih h
      exact ⟨other, List.mem_cons_of_mem raw hother, hcut⟩

/-- No scanned line holds a line feed. -/
theorem oneLine_of_mem_scan {source : Text} {line : Line} (h : line ∈ scan source) :
    '\n' ∉ line.text := by
  obtain ⟨raw, hraw, hcut⟩ := exists_of_mem_ofPhysicals h
  exact fun hc ↦ Text.not_mem_of_mem_pieces hraw (hcut.subset hc)

/-- Physical lines are scanned one after the other. -/
theorem ofPhysicals_append (number : Nat) (a b : List Text) :
    ofPhysicals number (a ++ b) = ofPhysicals number a ++ ofPhysicals (number + a.length) b := by
  induction a generalizing number with
  | nil => rfl
  | cons raw a ih =>
    have hnumber : number + 1 + a.length = number + (raw :: a).length := by
      rw [List.length_cons]
      omega
    rw [List.cons_append, ofPhysicals, ih, ofPhysicals, List.append_assoc, hnumber]

/-! ## Printed lines -/

private theorem content_eq_self {raw : Text} (hslash : '/' ∉ raw)
    (hlast : raw.getLast? ≠ some '\r') : content raw = raw := by
  rw [content, Text.dropReturns_eq_self hlast, Text.uncommented_of_not_mem hslash]

/-- A text that looks like a header and does not end with a brace is a header line. -/
theorem classify_header {text : Text} (hlooks : text.looksLikeHeader = true)
    (hbrace : text.getLast? ≠ some '{') (number column : Nat) :
    classify number column text = [.starting .header text number column] := by
  have hne (t : Text) (ht : t.looksLikeHeader = false) : text ≠ t := by
    rintro rfl
    rw [hlooks] at ht
    cases ht
  rw [classify, if_neg (hne _ rfl), if_neg (hne _ rfl), if_neg (hne _ rfl), if_pos hlooks,
    if_neg hbrace]

/-- A text that starts with a name and a parenthesis is a case line. -/
theorem classify_case {name : Text} (h : name.isName = true) (t : Text) (number column : Nat) :
    classify number column (name ++ '(' :: t) =
      [.starting .case (name ++ '(' :: t) number column] := by
  have hne (s : Text) (hs : '(' ∉ s) : name ++ '(' :: t ≠ s := by
    rintro rfl
    exact hs (by simp)
  rw [classify, if_neg (hne _ (by decide)), if_neg (hne _ (by decide)), if_neg (hne _ (by decide)),
    Text.looksLikeHeader_append h]
  rfl

/-- A printed header is scanned as a header from the first column on. -/
theorem ofPhysical_header {h : Header} (hh : h.WellFormed) (number : Nat) :
    ofPhysical number h.print = [.starting .header h.print number 1] := by
  obtain ⟨c, hlast, hc⟩ := hh.getLast_print
  have hne (d : Char) (hd : isWord d = false) : h.print.getLast? ≠ some d := by
    rw [hlast]
    rintro ⟨⟩
    rw [hc] at hd
    cases hd
  have hslash : '/' ∉ h.print := fun hslash ↦
    absurd (hh.mem_print '/' hslash) (by decide)
  have hcontent := content_eq_self hslash (hne '\r' (by decide))
  have htight : h.print.Tight := by
    refine ⟨fun d hd ↦ ?_, fun d hd ↦ ?_⟩
    · rw [Header.print_eq] at hd
      obtain rfl := Option.some.inj hd
      decide
    · rw [hlast] at hd
      obtain rfl := Option.some.inj hd
      exact not_isBlank_of_isWord hc
  have hlooks : h.print.looksLikeHeader = true := by
    rw [Header.print_eq]
    rfl
  rw [ofPhysical, hcontent, htight.trim_eq, Text.trimLeft_eq_self htight.1, Nat.sub_self,
    classify_header hlooks (hne '{' (by decide))]

/-- A printed opening brace is scanned as one. -/
theorem ofPhysical_opening (number : Nat) :
    ofPhysical number ['{'] = [.starting .opening ['{'] number 1] := rfl

/-- A printed closing brace is scanned as one. -/
theorem ofPhysical_closing (number : Nat) :
    ofPhysical number ['}'] = [.starting .closing ['}'] number 1] := rfl

/-- An empty line is scanned as a blank one. -/
theorem ofPhysical_blank (number : Nat) :
    ofPhysical number [] = [.starting .blank [] number 1] := rfl

/-- What is left of a printed case when the comment made out in it is cut away. -/
private theorem exists_uncommented_layout {name : Text} (hname : name.isName = true)
    (arguments body : Text) :
    ∃ t, (Text.uncommented (Case.layout name arguments body)).trim = name ++ '(' :: t := by
  have hopen : '/' ∉ name ++ ['('] := by
    rw [List.mem_append, not_or]
    exact ⟨fun hc ↦ ne_of_isWord ((Text.isName_iff.mp hname).2 _ hc) (by decide) rfl,
      by decide⟩
  have hpre : name ++ ['('] <+: Text.uncommented (Case.layout name arguments body) := by
    have hsplit : Case.layout name arguments body =
        (name ++ ['(']) ++ (arguments ++ ')' :: ' ' :: '=' :: ' ' :: (body ++ [';'])) := by
      simp [Case.layout]
    rw [hsplit, Text.uncommented, Text.uncommentedFrom_append hopen]
    exact List.prefix_append _ _
  have hhead := Text.head_of_isPrefix
    (Text.uncommentedFrom_isPrefix .outside (Case.layout name arguments body))
    (Case.tight_layout hname arguments body).1
  obtain ⟨t, ht⟩ := Text.prefix_trimRight hpre (by simp; decide)
  refine ⟨t, ?_⟩
  rw [Text.trim, Text.trimLeft_eq_self (t := Text.uncommented _) hhead, ← ht]
  simp

/-- A printed case is scanned as a case behind its indentation, up to the comment that is made out
in it. -/
theorem ofPhysical_case {indent name : Text} (hindent : ∀ c ∈ indent, isBlank c = true)
    (hname : name.isName = true) (arguments body : Text) (number : Nat) :
    ofPhysical number (indent ++ Case.layout name arguments body) =
      [.starting .case (Text.uncommented (Case.layout name arguments body)).trim number
        (indent.length + 1)] := by
  have hlast : (indent ++ Case.layout name arguments body).getLast? ≠ some '\r' := by
    rw [List.getLast?_append, Case.getLast?_layout, Option.some_or]
    decide
  have hne (d : Char) (hd : isBlank d = false) : d ∉ indent := fun hmem ↦ by
    rw [hindent d hmem] at hd
    cases hd
  have hcontent : content (indent ++ Case.layout name arguments body) =
      indent ++ Text.uncommented (Case.layout name arguments body) := by
    rw [content, Text.dropReturns_eq_self hlast, Text.uncommented,
      Text.uncommentedFrom_append (hne '/' (by decide)), Mode.after_outside (hne '"' (by decide)),
      Text.uncommented]
  have hhead := Text.head_of_isPrefix
    (Text.uncommentedFrom_isPrefix .outside (Case.layout name arguments body))
    (Case.tight_layout hname arguments body).1
  have htrimLeft : Text.trimLeft (indent ++ Text.uncommented (Case.layout name arguments body)) =
      Text.uncommented (Case.layout name arguments body) := by
    rw [Text.trimLeft_append_of_blank hindent]
    exact Text.trimLeft_eq_self hhead
  obtain ⟨t, ht⟩ := exists_uncommented_layout hname arguments body
  rw [ofPhysical, hcontent, htrimLeft, Text.trim_append_of_blank_left hindent, ht,
    classify_case hname, List.length_append, Nat.add_sub_cancel]

end Line

end Lilac
