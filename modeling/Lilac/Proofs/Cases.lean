import Lilac.Proofs.CaseParts

/-!
# Cases read back

The pieces of an unended argument list are unended, and so is what they give when they are joined
again. A case is well formed if its formal arguments are trimmed, unended pieces and its body is a
term that is read back. These are exactly the cases that are read, and each is read back from its
text under every function name.

About `format_case` and `parse_function_case`. Specification: `SPEC_FULL.md`, section 8.
-/

namespace Lilac

namespace Text

/-! ## Pieces of argument lists -/

/-- A prefix of an unended text is unended. -/
theorem Unended.of_append {a b : Text} (h : Unended (a ++ b)) : Unended a := by
  induction a with
  | nil => trivial
  | cons c a ih =>
    rw [List.cons_append, unended_cons] at h
    obtain ⟨hsemicolon, hclose, hrest⟩ := h
    refine ⟨hsemicolon, fun hc hequals ↦ hclose hc ?_, ih hrest⟩
    rw [head?_trimLeft_append, hequals]
    rfl

/-- What is left of an unended text after trimming is unended. -/
theorem Unended.trim {t : Text} (h : Unended t) : Unended (trim t) := by
  obtain ⟨a, b, -, -, ht⟩ := exists_eq_append_trim_append t
  rw [ht] at h
  exact h.of_append.of_append_right

private theorem unended_append_comma {a b : Text} :
    Unended (a ++ ',' :: b) ↔ Unended a ∧ Unended b := by
  constructor
  · intro h
    exact ⟨h.of_append, h.of_append_right.2.2⟩
  · rintro ⟨ha, hb⟩
    induction a with
    | nil => exact ⟨by decide, fun hc ↦ absurd hc (by decide), hb⟩
    | cons c a ih =>
      obtain ⟨hsemicolon, hclose, hrest⟩ := ha
      rw [List.cons_append, unended_cons]
      exact ⟨hsemicolon, fun hc ↦ head?_trimLeft_append_ne (hclose hc) (by decide) (by decide) b,
        ih hrest⟩

/-- Texts joined with commas are unended exactly when each of them is. -/
theorem unended_join_comma {ps : List Text} : Unended (join [','] ps) ↔ ∀ p ∈ ps, Unended p := by
  induction ps with
  | nil => simp [join, Unended]
  | cons p ps ih =>
    cases ps with
    | nil => simp [join]
    | cons q ps =>
      rw [join_cons_cons, List.singleton_append, unended_append_comma, ih]
      simp

private theorem unended_cons_space {t : Text} : Unended (' ' :: t) ↔ Unended t :=
  ⟨fun h ↦ h.2.2, fun h ↦ ⟨by decide, fun hc ↦ absurd hc (by decide), h⟩⟩

private theorem Unended.commaPieces {t : Text} (h : Unended t) :
    ∀ p ∈ commaPieces t, Unended p := by
  intro p hp
  obtain ⟨q, hq, rfl⟩ := List.mem_map.mp hp
  rw [← join_pieces ',' t, unended_join_comma] at h
  exact (h q hq).trim

/-- Unended pieces joined with a comma and a space are unended. -/
theorem unended_join {ps : List Text} (h : ∀ p ∈ ps, Unended p) :
    Unended (join [',', ' '] ps) := by
  cases ps with
  | nil => trivial
  | cons p ps =>
    rw [join_comma_space, unended_join_comma]
    intro q hq
    rcases List.mem_cons.mp hq with rfl | hq
    · exact h q List.mem_cons_self
    · obtain ⟨r, hr, rfl⟩ := List.mem_map.mp hq
      exact unended_cons_space.mpr (h r (List.mem_cons_of_mem p hr))

end Text

namespace Case

/-! ## Formal arguments -/

/-- A list of formal arguments that is read back: trimmed, unended pieces without commas, and not a
single empty one. -/
structure AreFormals (ps : List Text) : Prop where
  ne_singleton : ps ≠ [[]]
  piece : ∀ p ∈ ps, p.Tight ∧ ',' ∉ p ∧ p.Unended

private theorem areFormals_formals {t : Text} (h : t.Unended) : AreFormals (formals t) := by
  unfold formals
  split
  · exact ⟨by decide, fun p hp ↦ absurd hp List.not_mem_nil⟩
  · next hblank =>
    constructor
    · intro hsingle
      rw [Text.commaPieces] at hsingle
      obtain ⟨p, hp, htrim⟩ := List.map_eq_singleton_iff.mp hsingle
      have hjoin := Text.join_pieces ',' t.trim
      rw [hp, Text.join] at hjoin
      rw [hjoin, Text.trim_trim] at htrim
      exact hblank htrim
    · intro p hp
      obtain ⟨htight, hcomma⟩ := Text.mem_commaPieces hp
      exact ⟨htight, hcomma, h.trim.commaPieces p hp⟩

private theorem infix_of_mem_formals {t p : Text} (h : p ∈ formals t) : p <:+: t := by
  unfold formals at h
  split at h
  · exact absurd h List.not_mem_nil
  · obtain ⟨q, hq, rfl⟩ := List.mem_map.mp h
    exact (Text.trim_isInfix q).trans ((Text.infix_of_mem_pieces hq).trans (Text.trim_isInfix t))

/-- Formal arguments are read back from a list of them. -/
private theorem AreFormals.formals_join {ps : List Text} (h : AreFormals ps) :
    formals (Text.join [',', ' '] ps) = ps := by
  have hpieces : ∀ p ∈ ps, p.Tight ∧ ',' ∉ p := fun p hp ↦ ⟨(h.piece p hp).1, (h.piece p hp).2.1⟩
  cases ps with
  | nil => rfl
  | cons p ps =>
    have hnonblank : Text.trim (Text.join [',', ' '] (p :: ps)) ≠ [] := by
      cases ps with
      | nil =>
        rw [Text.join, (hpieces p List.mem_cons_self).1.trim_eq]
        rintro rfl
        exact h.ne_singleton rfl
      | cons q ps =>
        rw [ne_eq, Text.trim_eq_nil_iff, Text.join_cons_cons]
        intro hall
        have hcomma := hall ',' (by simp)
        revert hcomma
        decide
    rw [formals, if_neg hnonblank, Text.commaPieces_trim,
      Text.commaPieces_join (List.cons_ne_nil p ps) hpieces]

/-! ## Printing and reading -/

/-- A case whose formal arguments and body can be read back. -/
structure WellFormed (c : Case) : Prop where
  formals : AreFormals c.arguments
  body : c.body.WellFormed
  depth : c.body.depth ≤ Term.nestingLimit

/-- Only well-formed cases are read. -/
theorem wellFormed_of_parse? {line : Text} {c : Case} (h : parse? line = some c) :
    c.WellFormed := by
  obtain ⟨p, hcut, -, hbody, harguments⟩ := exists_parts_of_parse? h
  exact ⟨harguments ▸ areFormals_formals (Parts.cut_iff.mp hcut).1,
    Term.wellFormed_of_parse? hbody, Term.depth_le_of_parse? hbody⟩

/-- The formal arguments of a case stand in the line it is read from. -/
theorem infix_of_parse? {line : Text} {c : Case} (h : parse? line = some c) :
    ∀ p ∈ c.arguments, p <:+: line := by
  obtain ⟨p, -, hline, -, harguments⟩ := exists_parts_of_parse? h
  have hwithin : p.arguments <:+: line.trim := by
    rw [hline, Parts.text_eq, List.append_cons]
    exact List.infix_append' _ _ _
  rw [harguments]
  exact fun q hq ↦ (infix_of_mem_formals hq).trans (hwithin.trans (Text.trim_isInfix line))

/-- The text of a case with the given name, argument list and body. -/
def layout (name arguments body : Text) : Text :=
  name ++ '(' :: (arguments ++ ')' :: ' ' :: '=' :: ' ' :: (body ++ [';']))

/-- A case is printed as soon as its body is. -/
theorem print?_eq {c : Case} {body : Text} (h : c.body.print? = some body) (name : Text) :
    c.print? name = some (layout name (Text.join [',', ' '] c.arguments) body) := by
  simp [print?, h, layout]

/-- The text of a case ends with a semicolon. -/
theorem getLast?_layout (name arguments body : Text) :
    (layout name arguments body).getLast? = some ';' := by
  have hlast : layout name arguments body =
      (name ++ '(' :: (arguments ++ ')' :: ' ' :: '=' :: ' ' :: body)) ++ [';'] := by
    simp [layout]
  rw [hlast, List.getLast?_concat]

/-- The text of a case neither starts nor ends with a blank. -/
theorem tight_layout {name : Text} (h : name.isName = true) (arguments body : Text) :
    (layout name arguments body).Tight := by
  have hname := Text.fragment_of_isName h
  obtain ⟨c, rest, hcons⟩ := List.exists_cons_of_ne_nil hname.ne_nil
  constructor
  · intro d hd
    apply hname.tight.1
    rw [layout, hcons] at hd
    rw [hcons]
    exact hd
  · intro d hd
    rw [getLast?_layout] at hd
    obtain rfl := Option.some.inj hd
    decide

/-- A printed case is made of parts. -/
theorem exists_parts_layout {name arguments body : Text} (hname : name.isName = true)
    (harguments : arguments.Unended) (hbody : body.Fragment) :
    ∃ p : Parts, p.Cut ∧ p.text = layout name arguments body ∧ p.arguments = arguments ∧
      p.body = body ∧ p.tail = [] := by
  refine ⟨⟨⟨name, hname⟩, arguments, .space, .space, body, []⟩, ?_, ?_, rfl, rfl, rfl⟩
  · exact Parts.cut_iff.mpr ⟨harguments, hbody.tight.1, hbody.outside, hbody.unterminated⟩
  · simp [Parts.text, Parts.rest, Blanks.space, layout]

private theorem parse?_layout {name arguments body : Text} (hname : name.isName = true)
    (harguments : arguments.Unended) (hbody : body.Fragment) {t : Term}
    (ht : Term.parse? body = some t) :
    parse? (layout name arguments body) = some ⟨formals arguments, t⟩ := by
  obtain ⟨p, hcut, htext, rfl, rfl, -⟩ := exists_parts_layout hname harguments hbody
  have hline : (layout name p.arguments p.body).trim = p.text := by
    rw [(tight_layout hname _ _).trim_eq, htext]
  rw [hcut.parse?_eq hline, hbody.tight.trim_eq, ht]
  rfl

/-- A well-formed case has a text under every name, from which it is read back. -/
theorem WellFormed.exists_layout {c : Case} (h : c.WellFormed) :
    ∃ body, c.body.print? = some body ∧ body.Fragment ∧
      ∀ name, name.isName = true →
        parse? (layout name (Text.join [',', ' '] c.arguments) body) = some c := by
  obtain ⟨body, hprint, hbody⟩ := h.body.exists_printedAs
  refine ⟨body, hprint, hbody.fragment, fun name hname ↦ ?_⟩
  have hunended := Text.unended_join fun p hp ↦ (h.formals.piece p hp).2.2
  rw [parse?_layout hname hunended hbody.fragment (hbody.parse h.depth), h.formals.formals_join]

/-- Every case that is read has a text under every name, and is read back from it. -/
theorem read_case_comes_back {line name : Text} {c : Case} (h : parse? line = some c)
    (hname : name.isName = true) : ∃ text, c.print? name = some text ∧ parse? text = some c := by
  obtain ⟨body, hbody, -, hparse⟩ := (wellFormed_of_parse? h).exists_layout
  exact ⟨_, print?_eq hbody name, hparse name hname⟩

/-- Formal arguments with a line feed, a quote, a closing parenthesis and an empty piece, a hole and
a string that holds a semicolon. -/
theorem read_case_comes_back_odd_formals :
    parse? "f( a)\n,,\" )  = g(@, \";\"); h".toList =
        some ⟨[['a', ')'], [], ['"']], .call ['g'] [none, some (.literal ⟨.string, .str [';']⟩)]⟩ ∧
      Text.isName ['h'] = true ∧
      ∃ text, print? ['h'] ⟨[['a', ')'], [], ['"']],
          .call ['g'] [none, some (.literal ⟨.string, .str [';']⟩)]⟩ = some text ∧
        parse? text = some
          ⟨[['a', ')'], [], ['"']], .call ['g'] [none, some (.literal ⟨.string, .str [';']⟩)]⟩ := by
  have hline : parse? "f( a)\n,,\" )  = g(@, \";\"); h".toList =
      some ⟨[['a', ')'], [], ['"']],
        .call ['g'] [none, some (.literal ⟨.string, .str [';']⟩)]⟩ := by
    decide +kernel
  have hname : Text.isName ['h'] = true := by decide
  exact ⟨hline, hname, read_case_comes_back hline hname⟩

/-- No part of a printed case that stops early is a case. -/
theorem parse?_eq_none_of_isPrefix {name arguments body t : Text} (hname : name.isName = true)
    (harguments : arguments.Unended) (hbody : body.Fragment) (ht : t.Tight)
    (hpre : t <+: layout name arguments body) (hne : t ≠ layout name arguments body) :
    parse? t = none := by
  rw [← Option.not_isSome_iff_eq_none, Option.isSome_iff_exists]
  rintro ⟨c, hparse⟩
  obtain ⟨p, hp, hline⟩ := exists_parts hparse
  rw [ht.trim_eq] at hline
  obtain ⟨q, hq, hlayout, -, -, htail⟩ := exists_parts_layout hname harguments hbody
  -- What is missing would stand in the tail, and a printed case has none.
  obtain ⟨missing, hmissing⟩ := hpre
  have htext : Parts.text { p with tail := p.tail ++ missing } = q.text := by
    rw [hlayout, ← hmissing, hline]
    simp [Parts.text, Parts.rest]
  have hnone := congrArg Parts.tail ((hp.withTail _).text_inj hq htext)
  rw [htail] at hnone
  rw [(List.append_eq_nil_iff.mp hnone).2, List.append_nil] at hmissing
  exact hne hmissing

end Case

end Lilac
