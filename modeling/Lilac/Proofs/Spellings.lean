import Lilac.Proofs.Numerals

/-!
# Spellings of literals

The grammar of literals: the two truth words, digits behind an optional minus sign, digits on both
sides of a point, and units between quotes. A text is read as a literal exactly when it is spelt by
this grammar, it is spelt in one way only, and the literal is the one the spelling denotes.

About `parse_expression`. Specification: `SPEC_FULL.md`, section 4.1.
-/

namespace Lilac

namespace Literal

/-! ## Units of strings -/

/-- What stands for one character of a string: a character other than the quote and the backslash,
or a backslash and any character. -/
inductive StringUnit where
  | plain (c : Char) (ordinary : c ≠ '"' ∧ c ≠ '\\')
  | escaped (c : Char)

namespace StringUnit

/-- The unit as it is written. -/
def text : StringUnit → Text
  | plain c _ => [c]
  | escaped c => ['\\', c]

/-- The character that the unit stands for. -/
def value : StringUnit → Char
  | plain c _ => c
  | escaped c => if c = 'n' then '\n' else if c = 't' then '\t' else c

/-- An escaped character is replaced. -/
theorem value_escaped (c : Char) : (escaped c).value = unescape c := by
  unfold unescape
  split
  · rfl
  · rfl
  · next hn ht => rw [value, if_neg hn, if_neg ht]

private theorem text_append_inj {u v : StringUnit} {s t : Text} (h : u.text ++ s = v.text ++ t) :
    u = v ∧ s = t := by
  cases u with
  | plain c hc =>
    cases v with
    | plain d hd =>
      obtain ⟨rfl, hrest⟩ := List.cons.inj h
      exact ⟨rfl, hrest⟩
    | escaped d => exact absurd (List.cons.inj h).1 hc.2
  | escaped c =>
    cases v with
    | plain d hd => exact absurd (List.cons.inj h).1.symm hd.2
    | escaped d =>
      obtain ⟨rfl, hrest⟩ := List.cons.inj (List.cons.inj h).2
      exact ⟨rfl, hrest⟩

private theorem text_ne_nil (u : StringUnit) : u.text ≠ [] := by
  cases u with
  | plain c hc => exact List.cons_ne_nil _ _
  | escaped c => exact List.cons_ne_nil _ _

private theorem flatMap_text_inj {us vs : List StringUnit} (h : us.flatMap text = vs.flatMap text) :
    us = vs := by
  induction us generalizing vs with
  | nil =>
    cases vs with
    | nil => rfl
    | cons v vs =>
      rw [List.flatMap_nil, List.flatMap_cons] at h
      exact absurd (List.append_eq_nil_iff.mp h.symm).1 v.text_ne_nil
  | cons u us ih =>
    cases vs with
    | nil =>
      rw [List.flatMap_nil, List.flatMap_cons] at h
      exact absurd (List.append_eq_nil_iff.mp h).1 u.text_ne_nil
    | cons v vs =>
      rw [List.flatMap_cons, List.flatMap_cons] at h
      obtain ⟨rfl, hrest⟩ := text_append_inj h
      rw [ih hrest]

private theorem parseStringTail?_append (u : StringUnit) (t : Text) :
    parseStringTail? (u.text ++ t) = (parseStringTail? t).map (u.value :: ·) := by
  cases u with
  | plain c hc =>
    rw [text, List.singleton_append, parseStringTail?]
    · exact if_neg (not_or.mpr hc)
    · exact fun h ↦ absurd h hc.1
    · exact fun _ _ h ↦ absurd h hc.2
  | escaped c =>
    rw [value_escaped]
    rfl

end StringUnit

/-- The rest of a string literal is read exactly when it consists of units and a quote. -/
theorem parseStringTail?_eq_some_iff {t v : Text} :
    parseStringTail? t = some v ↔
      ∃ units : List StringUnit,
        units.flatMap StringUnit.text ++ ['"'] = t ∧ units.map StringUnit.value = v := by
  constructor
  · intro h
    fun_induction parseStringTail? t generalizing v with
    | case1 => cases h
    | case2 =>
      obtain rfl := Option.some.inj h
      exact ⟨[], rfl, rfl⟩
    | case3 c t ih =>
      obtain ⟨v, hv, rfl⟩ := Option.map_eq_some_iff.mp h
      obtain ⟨units, rfl, rfl⟩ := ih hv
      refine ⟨.escaped c :: units, rfl, ?_⟩
      rw [List.map_cons, StringUnit.value_escaped]
    | case4 c t hclosing hescape hordinary => cases h
    | case5 c t hclosing hescape hordinary ih =>
      obtain ⟨v, hv, rfl⟩ := Option.map_eq_some_iff.mp h
      obtain ⟨units, rfl, rfl⟩ := ih hv
      exact ⟨.plain c (not_or.mp hordinary) :: units, rfl, rfl⟩
  · rintro ⟨units, rfl, rfl⟩
    induction units with
    | nil => rfl
    | cons u units ih =>
      rw [List.flatMap_cons, List.append_assoc, u.parseStringTail?_append, ih]
      rfl

/-- Replaces the escapes of a text from left to right. -/
def replaceEscapes : Text → Text
  | [] => []
  | '\\' :: c :: t => unescape c :: replaceEscapes t
  | c :: t => c :: replaceEscapes t

/-- Replacing the escapes in a pass of its own finds the units that the text was accepted by. -/
theorem replaceEscapes_flatMap_text (units : List StringUnit) :
    replaceEscapes (units.flatMap StringUnit.text) = units.map StringUnit.value := by
  induction units with
  | nil => rfl
  | cons u units ih =>
    rw [List.flatMap_cons, List.map_cons, ← ih]
    cases u with
    | plain c hc =>
      rw [StringUnit.text, List.singleton_append, replaceEscapes]
      · rfl
      · exact fun _ _ h ↦ absurd h hc.2
    | escaped c =>
      rw [StringUnit.value_escaped]
      rfl

/-! ## Spellings -/

/-- A text that spells a literal: a truth word; an optional minus sign and up to 4300 digits; an
optional minus sign, digits, a point and digits, which together are read as a finite double; or
units between quotes. -/
inductive Spelling where
  | boolean (b : Bool)
  | integer (negative : Bool) (digits : Text) (run : isDigits digits = true)
    (length_le : digits.length ≤ 4300)
  | float (negative : Bool) (whole fraction : Text) (runs : isDigits whole ∧ isDigits fraction)
    (x : Double) (read : Double.read? (Double.signed negative (whole ++ '.' :: fraction)) = some x)
    (finite : x.isFinite = true)
  | string (units : List StringUnit)

namespace Spelling

/-- The spelt text. -/
def text : Spelling → Text
  | boolean true => "true".toList
  | boolean false => "false".toList
  | integer negative digits _ _ => Double.signed negative digits
  | float negative whole fraction _ _ _ _ => Double.signed negative (whole ++ '.' :: fraction)
  | string units => '"' :: (units.flatMap StringUnit.text ++ ['"'])

/-- The spelt literal. -/
def literal : Spelling → Literal
  | boolean b => ⟨.boolean, .bool b⟩
  | integer negative digits _ _ =>
    ⟨.integer, .int <|
      if negative then -(Nat.ofDigitChars 10 digits 0 : Int) else Nat.ofDigitChars 10 digits 0⟩
  | float _ _ _ _ x _ _ => ⟨.float, .float x⟩
  | string units => ⟨.string, .str (units.map StringUnit.value)⟩

/-- A spelling of a string is read as the string. -/
theorem parse?_string (units : List StringUnit) :
    parse? (string units).text = some (string units).literal := by
  have hread := parseStringTail?_eq_some_iff.mpr ⟨units, rfl, rfl⟩
  rw [text, parse?_cons_quote, hread]
  rfl

/-- A spelling of an integer is read as the integer. -/
theorem parse?_integer (negative : Bool) {digits : Text} (run : isDigits digits = true)
    (length_le : digits.length ≤ 4300) :
    parse? (integer negative digits run length_le).text =
      some (integer negative digits run length_le).literal := by
  have hboolean := parseBoolean?_signed run negative []
  rw [List.append_nil] at hboolean
  rw [text, parse?, hboolean, parseInteger?_signed run length_le, ofAsciiDigits_eq]
  rfl

/-- A spelling of a float is read as the float. -/
theorem parse?_float (negative : Bool) {whole fraction : Text}
    (runs : isDigits whole ∧ isDigits fraction) {x : Double}
    (read : Double.read? (Double.signed negative (whole ++ '.' :: fraction)) = some x)
    (finite : x.isFinite = true) :
    parse? (float negative whole fraction runs x read finite).text =
      some (float negative whole fraction runs x read finite).literal := by
  have hminus := takeMinus_signed runs.1 negative ('.' :: fraction)
  have hvalue : Double.ofDecimal negative (Decimal.ofParts whole fraction) = x := by
    rw [Double.read?_of_parts negative runs.1 runs.2] at read
    exact Option.some.inj read
  rw [text, parse?, parseBoolean?_signed runs.1, parseInteger?_of_point hminus,
    parseFloat?_of_parts hminus runs.1 runs.2 hvalue, if_pos finite]
  rfl

/-- A spelling is read as the literal it spells. -/
theorem parse?_text (s : Spelling) : parse? s.text = some s.literal := by
  cases s with
  | boolean b => cases b <;> rfl
  | integer negative digits run length_le => exact parse?_integer negative run length_le
  | float negative whole fraction runs x read finite => exact parse?_float negative runs read finite
  | string units => exact parse?_string units

/-- A text is spelt in one way only. -/
theorem text_inj {s s' : Spelling} (h : s.text = s'.text) : s = s' := by
  -- both are read as the same literal, so they are of one kind
  have hliteral : s.literal = s'.literal := by
    have hread := s.parse?_text
    rw [h, s'.parse?_text] at hread
    exact (Option.some.inj hread).symm
  have hminus := congrArg takeMinus h
  cases s with
  | boolean b =>
    cases s' with
    | boolean b' =>
      cases hliteral
      rfl
    | integer | float | string => cases hliteral
  | integer negative digits run length_le =>
    cases s' with
    | integer negative' digits' run' length_le' =>
      have hdigits := takeMinus_signed run negative []
      have hdigits' := takeMinus_signed run' negative' []
      rw [List.append_nil] at hdigits hdigits'
      rw [text, text, hdigits, hdigits'] at hminus
      obtain ⟨rfl, rfl⟩ := Prod.mk.inj hminus
      rfl
    | boolean | float | string => cases hliteral
  | float negative whole fraction runs x read finite =>
    cases s' with
    | float negative' whole' fraction' runs' x' read' finite' =>
      rw [text, text, takeMinus_signed runs.1, takeMinus_signed runs'.1] at hminus
      obtain ⟨rfl, hparts⟩ := Prod.mk.inj hminus
      obtain ⟨htake, hdrop⟩ := cut_at_point runs.1 fraction
      obtain ⟨htake', hdrop'⟩ := cut_at_point runs'.1 fraction'
      obtain rfl : whole = whole' := by rw [← htake, hparts, htake']
      obtain rfl : fraction = fraction' := (List.cons.inj (List.append_cancel_left hparts)).2
      cases hliteral
      rfl
    | boolean | integer | string => cases hliteral
  | string units =>
    cases s' with
    | string units' =>
      rw [StringUnit.flatMap_text_inj (List.append_cancel_right (List.cons.inj h).2)]
    | boolean | integer | float => cases hliteral

end Spelling

private theorem eq_of_parseBoolean? {t : Text} {b : Bool} (h : parseBoolean? t = some b) :
    t = (Spelling.boolean b).text := by
  rw [parseBoolean?] at h
  split at h
  · next ht =>
    obtain rfl := Option.some.inj h
    exact ht
  · split at h
    · next ht =>
      obtain rfl := Option.some.inj h
      exact ht
    · cases h

/-- A string is read from units between quotes. -/
theorem exists_of_parseString? {t v : Text} (h : parseString? t = some v) :
    ∃ units : List StringUnit,
      '"' :: (units.flatMap StringUnit.text ++ ['"']) = t ∧ units.map StringUnit.value = v := by
  unfold parseString? at h
  split at h
  · next t =>
    obtain ⟨units, rfl, hvalue⟩ := parseStringTail?_eq_some_iff.mp h
    exact ⟨units, rfl, hvalue⟩
  · cases h

/-- What is read is spelt. -/
theorem exists_spelling {t : Text} {l : Literal} (h : parse? t = some l) :
    ∃ s : Spelling, s.text = t ∧ s.literal = l := by
  simp only [parse?, Option.orElse_eq_orElse, Option.orElse_eq_or, Option.or_eq_some_iff,
    Option.map_eq_some_iff] at h
  rcases h with ⟨b, hb, rfl⟩ | ⟨-, ⟨n, hn, rfl⟩ | ⟨-, ⟨x, hx, rfl⟩ | ⟨-, v, hv, rfl⟩⟩⟩
  · exact ⟨.boolean b, (eq_of_parseBoolean? hb).symm, rfl⟩
  · obtain ⟨negative, digits, rfl, hdigits, hlimit, rfl⟩ := exists_of_parseInteger? hn
    rw [ofAsciiDigits_eq]
    exact ⟨.integer negative digits hdigits hlimit, rfl, rfl⟩
  · obtain ⟨negative, whole, fraction, rfl, hwhole, hfraction, hvalue, hfinite⟩ :=
      exists_of_parseFloat? hx
    have hread := Double.read?_of_parts negative hwhole hfraction
    rw [← hvalue] at hread
    exact ⟨.float negative whole fraction ⟨hwhole, hfraction⟩ x hread hfinite, rfl, rfl⟩
  · obtain ⟨units, rfl, rfl⟩ := exists_of_parseString? hv
    exact ⟨.string units, rfl, rfl⟩

/-- A text is read as a literal exactly when it is a spelling of it. -/
theorem parse?_eq_some_iff {t : Text} {l : Literal} :
    parse? t = some l ↔ ∃ s : Spelling, s.text = t ∧ s.literal = l := by
  constructor
  · exact exists_spelling
  · rintro ⟨s, rfl, rfl⟩
    exact s.parse?_text

/-- A text is read as a literal exactly when it spells that literal, and it spells one in one way
only. What is read from a string is what replacing its escapes from left to right gives, one
character for each unit. Nothing is read from a text that spells nothing. -/
theorem read_exactly_by_grammar (t : Text) :
    (∀ l, parse? t = some l ↔ ∃ s : Spelling, s.text = t ∧ s.literal = l) ∧
      (∀ s s' : Spelling, s.text = t → s'.text = t → s = s') ∧
      (∀ units v, (Spelling.string units).text = t → parse? t = some ⟨.string, .str v⟩ →
        v = replaceEscapes (units.flatMap StringUnit.text) ∧ v.length = units.length) ∧
      (parse? t = none ↔ ∀ s : Spelling, s.text ≠ t) := by
  refine ⟨fun l ↦ parse?_eq_some_iff, ?_, ?_, ?_⟩
  · intro s s' hs hs'
    exact Spelling.text_inj (hs.trans hs'.symm)
  · rintro units v rfl hread
    rw [Spelling.parse?_text] at hread
    obtain rfl : units.map StringUnit.value = v := by
      injection hread with hliteral
      injection hliteral with _ hvalue
      injection hvalue
    exact ⟨(replaceEscapes_flatMap_text units).symm, List.length_map _⟩
  · rw [Option.eq_none_iff_forall_ne_some]
    constructor
    · rintro hnone s rfl
      exact hnone _ s.parse?_text
    · rintro hspelt l hread
      obtain ⟨s, htext, -⟩ := exists_spelling hread
      exact hspelt s htext

/-- A string with a line feed, a quote, a backslash and a needless escape in it. -/
theorem read_exactly_by_grammar_escapes :
    parse? "\"a\\n\\\"\\\\\\q\"".toList = some ⟨.string, .str ['a', '\n', '"', '\\', 'q']⟩ ∧
      (∀ s : Spelling, s.text = "\"a\\n\\\"\\\\\\q\"".toList → s = .string [.plain 'a' (by decide),
        .escaped 'n', .escaped '"', .escaped '\\', .escaped 'q']) ∧
      ['a', '\n', '"', '\\', 'q'] = replaceEscapes "a\\n\\\"\\\\\\q".toList := by
  obtain ⟨hiff, hunique, hvalue, -⟩ :=
    read_exactly_by_grammar "\"a\\n\\\"\\\\\\q\"".toList
  have htext : (Spelling.string [.plain 'a' (by decide), .escaped 'n', .escaped '"',
      .escaped '\\', .escaped 'q']).text = "\"a\\n\\\"\\\\\\q\"".toList := by
    decide
  have hread := (hiff _).mpr ⟨_, htext, rfl⟩
  exact ⟨hread, fun s hs ↦ hunique s _ hs htext, (hvalue _ _ htext hread).1⟩

end Literal

end Lilac
