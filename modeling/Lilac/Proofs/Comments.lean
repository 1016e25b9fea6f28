import Lilac.Proofs.Documents

/-!
# Texts without comments

A comment starts at two slashes outside string literals. No slash is visible in a printed term,
whatever its strings hold, so a comment can be made out in the text of a case only if its formal
arguments hold a quote or two slashes. Functions whose formal arguments hold neither are read back
from their texts as they are.

About `format_function` and `_strip_comment`. Specification: `SPEC_FULL.md`, section 8.
-/

namespace Lilac

namespace Text

/-! ## Where no comment starts -/

/-- Visible characters stand in the text. -/
theorem mem_of_mem_shown {mode : Mode} {t : Text} {c : Char} (h : c ∈ shown mode t) : c ∈ t := by
  induction t generalizing mode with
  | nil => cases h
  | cons d t ih =>
    rw [shown] at h
    split at h
    · rcases List.mem_cons.mp h with rfl | h
      · exact List.mem_cons_self
      · exact List.mem_cons_of_mem d (ih h)
    · exact List.mem_cons_of_mem d (ih h)

/-- No comment starts in a text that shows no slash. -/
theorem uncommentedFrom_append_of_shown {mode : Mode} {a : Text} (h : '/' ∉ shown mode a)
    (b : Text) : uncommentedFrom mode (a ++ b) = a ++ uncommentedFrom (mode.after a) b := by
  induction a generalizing mode with
  | nil => rfl
  | cons c a ih =>
    rw [shown] at h
    have hcomment : ¬(mode = .outside ∧ c = '/' ∧ (a ++ b).head? = some '/') := by
      rintro ⟨rfl, rfl, -⟩
      exact h List.mem_cons_self
    have hrest : '/' ∉ shown (mode.next c) a := by
      split at h
      · exact fun hmem ↦ h (List.mem_cons_of_mem c hmem)
      · exact h
    rw [List.cons_append, uncommentedFrom_cons hcomment, ih hrest]
    rfl

/-- A text in which no comment can start outside string literals: it leads into none, and no two
slashes follow each other in it. -/
def Clear (t : Text) : Prop := '"' ∉ t ∧ ¬['/', '/'] <:+: t

private theorem Clear.uncommentedFrom_append {a b : Text} (h : Clear a) (hb : b.head? ≠ some '/') :
    uncommentedFrom .outside (a ++ b) = a ++ uncommentedFrom .outside b := by
  obtain ⟨hquote, hslashes⟩ := h
  induction a with
  | nil => rfl
  | cons c a ih =>
    obtain ⟨hc, ha⟩ := not_or.mp (mt List.mem_cons.mpr hquote)
    have hcomment : ¬(Mode.outside = .outside ∧ c = '/' ∧ (a ++ b).head? = some '/') := by
      rintro ⟨-, rfl, hhead⟩
      cases a with
      | nil => exact hb hhead
      | cons d a =>
        obtain rfl := Option.some.inj hhead
        exact hslashes (List.prefix_append ['/', '/'] a).isInfix
    have hrest : ¬['/', '/'] <:+: a := mt List.infix_cons hslashes
    rw [List.cons_append, uncommentedFrom_cons hcomment, Mode.next_outside (Ne.symm hc),
      ih ha hrest]
    rfl

private theorem uncommentedFrom_join_append {ps : List Text} (h : ∀ p ∈ ps, Clear p) {b : Text}
    (hb : b.head? ≠ some '/') :
    uncommentedFrom .outside (join [',', ' '] ps ++ b) =
      join [',', ' '] ps ++ uncommentedFrom .outside b := by
  induction ps with
  | nil => rfl
  | cons p ps ih =>
    obtain ⟨hp, hps⟩ := List.forall_mem_cons.mp h
    cases ps with
    | nil => exact hp.uncommentedFrom_append hb
    | cons q ps =>
      have hcomma : '/' ∉ [',', ' '] := by decide
      rw [join_cons_cons, List.append_assoc, List.append_assoc,
        hp.uncommentedFrom_append (by simp), Text.uncommentedFrom_append hcomma,
        Mode.after_outside (by decide), ih hps, List.append_assoc, List.append_assoc]

private theorem of_mem_shown_join {ps : List Text} (h : ∀ p ∈ ps, Fragment p) {c : Char}
    (hc : c ∈ shown .outside (join [',', ' '] ps)) :
    c ∈ [',', ' '] ∨ ∃ p ∈ ps, c ∈ shown .outside p := by
  induction ps with
  | nil => cases hc
  | cons p ps ih =>
    obtain ⟨hp, hps⟩ := List.forall_mem_cons.mp h
    cases ps with
    | nil => exact .inr ⟨p, List.mem_cons_self, hc⟩
    | cons q ps =>
      rw [join_cons_cons, shown_append, hp.outside, shown_append, sealed_comma_space.outside] at hc
      rcases List.mem_append.mp hc with hc | hc
      · exact .inr ⟨p, List.mem_cons_self, hc⟩
      rcases List.mem_append.mp hc with hc | hc
      · exact .inl hc
      · rcases ih hps hc with hc | ⟨r, hr, hc⟩
        · exact .inl hc
        · exact .inr ⟨r, List.mem_cons_of_mem p hr, hc⟩

/-- No slash stands in a name. -/
theorem slash_not_mem_of_isName {t : Text} (h : isName t = true) : '/' ∉ t := fun hc ↦
  ne_of_isWord ((isName_iff.mp h).2 _ hc) (by decide) rfl

end Text

/-! ## Printed terms show no slash -/

private theorem Double.slash_not_mem_signed {negative : Bool} {t : Text}
    (h : ∀ c ∈ t, isAsciiDigit c = true ∨ c = '.') : '/' ∉ signed negative t := by
  have ht : '/' ∉ t := fun hc ↦ absurd (h _ hc) (by decide)
  cases negative with
  | true => exact fun hc ↦ (List.mem_cons.mp hc).elim (by decide) ht
  | false => exact ht

private theorem Decimal.isAsciiDigit_or_point {d : Decimal} {c : Char} (h : c ∈ d.positional) :
    isAsciiDigit c = true ∨ c = '.' := by
  obtain ⟨whole, fraction, htext, hwhole, hfraction, -⟩ := d.exists_positional_eq
  rw [htext] at h
  exact Literal.digit_or_point hwhole hfraction c h

/-- A printed literal shows no slash: numbers and truth values have none, strings hide theirs. -/
private theorem Literal.WellFormed.slash_not_shown {l : Literal} (h : l.WellFormed) {text : Text}
    (htext : l.print? = some text) : '/' ∉ Text.shown .outside text := by
  cases h with
  | boolean b =>
    rw [(printedAs_boolean b).print] at htext
    obtain rfl := Option.some.inj htext
    cases b <;> decide
  | integer n hn =>
    rw [(printedAs_integer hn).print] at htext
    obtain rfl := Option.some.inj htext
    refine mt Text.mem_of_mem_shown ?_
    rw [integerText_eq]
    exact Double.slash_not_mem_signed fun c hc ↦ .inl (isAsciiDigit_of_mem_toAsciiDigits hc)
  | float negative x =>
    rw [(printedAs_float negative x).print] at htext
    obtain rfl := Option.some.inj htext
    refine mt Text.mem_of_mem_shown ?_
    exact Double.slash_not_mem_signed fun c hc ↦ Decimal.isAsciiDigit_or_point hc
  | string s =>
    rw [(printedAs_string s).print] at htext
    obtain rfl := Option.some.inj htext
    rw [shown_quote]
    decide

namespace Term

/-- The text of an argument is a question mark or the text of a term. -/
private theorem of_mem_printArguments? {xs : List (Option Term)} {texts : List Text}
    (h : printArguments? xs = some texts) :
    ∀ p ∈ texts, p = ['?'] ∨ ∃ t, some t ∈ xs ∧ t.print? = some p := by
  induction xs generalizing texts with
  | nil =>
    obtain rfl := Option.some.inj h
    exact List.forall_mem_nil _
  | cons x xs ih =>
    have later {rest : List Text} (hrest : printArguments? xs = some rest) (p : Text)
        (hp : p ∈ rest) : p = ['?'] ∨ ∃ t, some t ∈ x :: xs ∧ t.print? = some p := by
      rcases ih hrest p hp with hp | ⟨t, ht, hprint⟩
      · exact .inl hp
      · exact .inr ⟨t, List.mem_cons_of_mem x ht, hprint⟩
    cases x with
    | none =>
      simp only [printArguments?, Option.bind_eq_bind, Option.bind_eq_some_iff] at h
      obtain ⟨rest, hrest, htexts⟩ := h
      obtain rfl := Option.some.inj htexts
      exact List.forall_mem_cons.mpr ⟨.inl rfl, later hrest⟩
    | some t =>
      simp only [printArguments?, Option.bind_eq_bind, Option.bind_eq_some_iff] at h
      obtain ⟨text, hprint, rest, hrest, htexts⟩ := h
      obtain rfl := Option.some.inj htexts
      exact List.forall_mem_cons.mpr ⟨.inr ⟨t, List.mem_cons_self, hprint⟩, later hrest⟩

/-- A printed term shows no slash. -/
private theorem WellFormed.slash_not_shown {t : Term} (h : t.WellFormed) {text : Text}
    (htext : t.print? = some text) : '/' ∉ Text.shown .outside text := by
  induction h generalizing text with
  | literal l h => exact h.slash_not_shown htext
  | call name arguments hname harguments ih =>
    obtain ⟨texts, htexts⟩ := exists_allPrintedAs fun t ht ↦ (harguments t ht).exists_printedAs
    have htext' : text = name ++ ('(' :: Text.join [',', ' '] texts ++ [')']) := by
      simpa [print?, htexts.print] using htext.symm
    have hjoin : '/' ∉ Text.shown .outside (Text.join [',', ' '] texts) := by
      intro hc
      rcases Text.of_mem_shown_join htexts.fragment hc with hc | ⟨p, hp, hc⟩
      · revert hc
        decide
      · rcases of_mem_printArguments? htexts.print p hp with rfl | ⟨t, ht, hprint⟩
        · revert hc
          decide
        · exact ih t ht hprint hc
    have hsealed := Text.sealed_join Text.sealed_comma_space fun p hp ↦
      (htexts.fragment p hp).mono (by decide)
    have hname' : '/' ∉ Text.shown .outside name :=
      mt Text.mem_of_mem_shown (Text.slash_not_mem_of_isName hname)
    have hopen : Mode.outside.next '(' = .outside := rfl
    rw [htext', Text.shown_append, (Text.fragment_of_isName hname).outside, List.cons_append,
      Text.shown_outside_cons, hopen, Text.shown_append, hsealed.outside]
    simp only [List.mem_append, List.mem_cons, not_or]
    exact ⟨hname', by decide, hjoin, by decide⟩

end Term

/-! ## Functions read back -/

/-- No comment is made out in the text of a case whose formal arguments are clear. -/
theorem Case.WellFormed.hasComment_eq_false {c : Case} (h : c.WellFormed)
    (hclear : ∀ p ∈ c.arguments, p.Clear) {name : Text} (hname : name.isName = true) :
    c.hasComment name = false := by
  obtain ⟨body, hbody, hfragment, -⟩ := h.exists_layout
  have hopen : '/' ∉ name ++ ['('] := by
    rw [List.mem_append, not_or]
    exact ⟨Text.slash_not_mem_of_isName hname, by decide⟩
  have hquote : '"' ∉ name ++ ['('] := by
    rw [List.mem_append, not_or]
    exact ⟨fun hc ↦ (Text.isPlain_of_isWord ((Text.isName_iff.mp hname).2 _ hc)).1 rfl, by decide⟩
  have hequals : '/' ∉ [')', ' ', '=', ' '] := by decide
  have hlayout : layout name (Text.join [',', ' '] c.arguments) body =
      (name ++ ['(']) ++ (Text.join [',', ' '] c.arguments ++
        ([')', ' ', '=', ' '] ++ (body ++ [';']))) := by
    simp [layout]
  -- The five parts of the text: the head and the arguments leave the reader outside string
  -- literals, so the body is read as it was printed.
  have hsame : Text.uncommented (layout name (Text.join [',', ' '] c.arguments) body) =
      layout name (Text.join [',', ' '] c.arguments) body := by
    rw [hlayout, Text.uncommented, Text.uncommentedFrom_append hopen, Mode.after_outside hquote,
      Text.uncommentedFrom_join_append hclear (by simp), Text.uncommentedFrom_append hequals,
      Mode.after_outside (by decide), Text.uncommentedFrom_append_of_shown
        (h.body.slash_not_shown hbody), hfragment.outside]
    rfl
  rw [hasComment, print?_eq hbody, Option.any_some, hsame]
  simp

namespace Document

/-- Functions whose headers and cases can be read, and whose formal arguments hold neither a quote
nor two slashes in a row nor a line feed, have a text under every indentation of blanks. Exactly
these functions are read back from it, and nothing is reported. -/
theorem readable_functions_come_back {indent : Text}
    (hindent : ∀ d ∈ indent, isBlank d = true ∧ d ≠ '\n') {fs : List Function}
    (hheaders : ∀ f ∈ fs, ∃ line, Header.parse? line = some f.header)
    (hcases : ∀ f ∈ fs, ∀ c ∈ f.cases, ∃ line, Case.parse? line = some c)
    (hformals : ∀ f ∈ fs, ∀ c ∈ f.cases, ∀ p ∈ c.arguments,
      '"' ∉ p ∧ ¬['/', '/'] <:+: p ∧ '\n' ∉ p) :
    ∃ text, Function.printAll? indent fs = some text ∧
      (parse text).functions = fs ∧ (parse text).issues = [] := by
  have hheader (f : Function) (hf : f ∈ fs) : f.header.WellFormed := by
    obtain ⟨line, hline⟩ := hheaders f hf
    exact Header.wellFormed_of_parse? hline
  have hcase (f : Function) (hf : f ∈ fs) (c : Case) (hc : c ∈ f.cases) : c.WellFormed := by
    obtain ⟨line, hline⟩ := hcases f hf c hc
    exact Case.wellFormed_of_parse? hline
  have hformed : ∀ f ∈ fs, f.WellFormed := fun f hf ↦
    ⟨hheader f hf, fun c hc ↦ ⟨hcase f hf c hc, fun p hp ↦ (hformals f hf c hc p hp).2.2⟩⟩
  obtain ⟨text, hprint, hback⟩ := parse_printAll_eq_iff hindent hformed
  refine ⟨text, hprint, hback.mpr fun f hf c hc ↦ ?_⟩
  refine (hcase f hf c hc).hasComment_eq_false (fun p hp ↦ ?_) (hheader f hf).name
  exact ⟨(hformals f hf c hc p hp).1, (hformals f hf c hc p hp).2.1⟩

/-- A function named like the keyword whose formal arguments hold a slash, an equals sign and a
parenthesis, and whose string holds slashes, a line feed, a brace, a semicolon, the keyword and a
carriage return; and a function without cases after it. -/
def hostileFunctions : List Function :=
  [⟨⟨"func".toList, [['a']], [['b']]⟩,
      [⟨["a/=".toList, ['(']], .literal ⟨.string, .str "//\n\x7b;func \r".toList⟩⟩]⟩,
    ⟨⟨"func".toList, [['a']], [['b']]⟩, []⟩]

theorem hostileFunctions_come_back :
    Header.parse? "func func a -> b".toList = some ⟨"func".toList, [['a']], [['b']]⟩ ∧
      Case.parse? "f(a/=, ( ) = \"//\\n\x7b;func \\\r\";".toList =
        some ⟨["a/=".toList, ['(']], .literal ⟨.string, .str "//\n\x7b;func \r".toList⟩⟩ ∧
      ∃ text, Function.printAll? ['\r'] hostileFunctions = some text ∧
        (parse text).functions = hostileFunctions ∧ (parse text).issues = [] := by
  have hheader : Header.parse? "func func a -> b".toList =
      some ⟨"func".toList, [['a']], [['b']]⟩ := by
    decide
  have hcase : Case.parse? "f(a/=, ( ) = \"//\\n\x7b;func \\\r\";".toList =
      some ⟨["a/=".toList, ['(']], .literal ⟨.string, .str "//\n\x7b;func \r".toList⟩⟩ := by
    decide +kernel
  refine ⟨hheader, hcase, readable_functions_come_back ?_ ?_ ?_ ?_⟩
  · exact Text.forall_mem_of_all rfl
  · simp only [hostileFunctions, List.forall_mem_cons]
    exact ⟨⟨_, hheader⟩, ⟨_, hheader⟩, List.forall_mem_nil _⟩
  · simp only [hostileFunctions, List.forall_mem_cons]
    exact ⟨⟨⟨_, hcase⟩, List.forall_mem_nil _⟩, List.forall_mem_nil _, List.forall_mem_nil _⟩
  · simp only [hostileFunctions, List.forall_mem_cons]
    exact ⟨⟨⟨by decide, by decide, List.forall_mem_nil _⟩, List.forall_mem_nil _⟩,
      List.forall_mem_nil _, List.forall_mem_nil _⟩

end Document

end Lilac
