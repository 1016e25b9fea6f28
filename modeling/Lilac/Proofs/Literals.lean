import Lilac.Proofs.DecimalTexts
import Lilac.Proofs.Quotation

/-!
# Literals read back

A literal is well formed if its value is of its kind, an integer has no more digits than are read
and a double is finite. Reading gives only well-formed literals, and a well-formed literal has a
text, a fragment that no reader looks into, from which it is read back.
-/

namespace Lilac

namespace Text

/-- A piece of printed text: sealed, not empty, without blanks at its ends and on one line. -/
structure Fragment (t : Text) : Prop extends Sealed 0 t where
  ne_nil : t ≠ []
  tight : Tight t
  oneLine : '\n' ∉ t

/-- Plain characters that are not blank make up a fragment. -/
theorem fragment_of_plain {t : Text} (hne : t ≠ [])
    (h : ∀ c ∈ t, IsPlain c ∧ isBlank c = false) : Fragment t where
  toSealed := sealed_of_plain fun c hc ↦ (h c hc).1
  ne_nil := hne
  tight := ⟨fun c hc ↦ (h c (List.mem_of_mem_head? hc)).2,
    fun c hc ↦ (h c (List.mem_of_mem_getLast? hc)).2⟩
  oneLine hc := absurd (h _ hc).2 (by decide)

/-- A name consists of word characters. -/
theorem isName_iff {t : Text} : isName t = true ↔ t ≠ [] ∧ ∀ c ∈ t, isWord c = true := by
  simp [isName]

/-- Word characters are plain and not blank. -/
theorem plain_of_words {t : Text} (h : ∀ c ∈ t, isWord c = true) :
    ∀ c ∈ t, IsPlain c ∧ isBlank c = false :=
  fun c hc ↦ ⟨isPlain_of_isWord (h c hc), not_isBlank_of_isWord (h c hc)⟩

/-- A name is a fragment. -/
theorem fragment_of_isName {t : Text} (h : isName t = true) : Fragment t :=
  fragment_of_plain (isName_iff.mp h).1 (plain_of_words (isName_iff.mp h).2)

/-- A run of word characters is taken up to the first other character. -/
theorem takeWhile_isWord_append {name : Text} (h : ∀ c ∈ name, isWord c = true) {d : Char}
    (hd : isWord d = false) (t : Text) : (name ++ d :: t).takeWhile isWord = name :=
  takeWhile_append_of_head h (forall_mem_head?_cons hd t)

/-- Behind a run of word characters the text goes on with the first other character. -/
theorem dropWhile_isWord_append {name : Text} (h : ∀ c ∈ name, isWord c = true) {d : Char}
    (hd : isWord d = false) (t : Text) : (name ++ d :: t).dropWhile isWord = d :: t :=
  dropWhile_append_of_head h (forall_mem_head?_cons hd t)

/-- A text without an opening parenthesis is no call. -/
theorem callParts?_of_not_mem {t : Text} (h : '(' ∉ t) : callParts? t = none := by
  unfold callParts?
  split
  · next c name rest hname hrest =>
    exact absurd ((List.dropWhile_sublist (l := t) isWord).mem (hrest ▸ List.mem_cons_self)) h
  · rfl

private theorem callParts?_cons_of_not_word {c : Char} (h : isWord c = false) (t : Text) :
    callParts? (c :: t) = none := by
  simp [callParts?, h]

end Text

namespace Literal

/-! ## Numbers taken apart -/

/-- A text is its sign and what stands behind it. -/
theorem signed_takeMinus (t : Text) : Double.signed (takeMinus t).1 (takeMinus t).2 = t := by
  unfold takeMinus
  split
  · rfl
  · rfl

/-- An integer is read from a sign and up to `digitLimit` digits. -/
theorem exists_of_parseInteger? {t : Text} {n : Int} (h : parseInteger? t = some n) :
    ∃ negative digits, t = Double.signed negative digits ∧ isDigits digits = true ∧
      digits.length ≤ digitLimit ∧
      n = if negative then -(ofAsciiDigits digits : Int) else ofAsciiDigits digits := by
  rw [parseInteger?] at h
  dsimp only at h
  split at h
  · next hdigits =>
    obtain ⟨hrun, hlimit⟩ := (Bool.and_eq_true _ _).mp hdigits
    exact ⟨_, _, (signed_takeMinus t).symm, hrun, of_decide_eq_true hlimit,
      (Option.some.inj h).symm⟩
  · cases h

private theorem eq_append_point {t : Text}
    (h : (t.dropWhile (fun c ↦ decide (c ≠ '.'))).drop 1 ≠ []) :
    t = t.takeWhile (fun c ↦ decide (c ≠ '.')) ++
      '.' :: (t.dropWhile (fun c ↦ decide (c ≠ '.'))).drop 1 := by
  have happend := List.takeWhile_append_dropWhile (p := fun c ↦ decide (c ≠ '.')) (l := t)
  have hhead := List.head?_dropWhile_not (fun c ↦ decide (c ≠ '.')) t
  cases hrest : t.dropWhile (fun c ↦ decide (c ≠ '.')) with
  | nil =>
    rw [hrest] at h
    exact absurd rfl h
  | cons c rest =>
    rw [hrest] at happend hhead
    have hc : c = '.' := by simpa using hhead
    rw [hc] at happend
    exact happend.symm

/-- A decimal is read from a sign and digits on both sides of a point, as the double nearest to it,
which is finite. -/
theorem exists_of_parseFloat? {t : Text} {x : Double} (h : parseFloat? t = some x) :
    ∃ negative whole fraction, t = Double.signed negative (whole ++ '.' :: fraction) ∧
      isDigits whole = true ∧ isDigits fraction = true ∧
      x = Double.ofDecimal negative (Decimal.ofParts whole fraction) ∧ x.isFinite = true := by
  rw [parseFloat?] at h
  dsimp only at h
  split at h
  · next hdigits =>
    obtain ⟨hwhole, hfraction⟩ := (Bool.and_eq_true _ _).mp hdigits
    split at h
    · next hfinite =>
      obtain rfl := Option.some.inj h
      refine ⟨_, _, _, ?_, hwhole, hfraction, rfl, hfinite⟩
      rw [← eq_append_point (isDigits_iff.mp hfraction).1, signed_takeMinus]
    · cases h
  · cases h

/-! ## Well-formed literals -/

/-- A literal whose value is of its kind and within the limits of what is read. -/
inductive WellFormed : Literal → Prop
  | boolean (b : Bool) : WellFormed ⟨.boolean, .bool b⟩
  | integer (n : Int) (h : (toAsciiDigits n.natAbs).length ≤ digitLimit) :
    WellFormed ⟨.integer, .int n⟩
  | float (negative : Bool) (x : Magnitude) : WellFormed ⟨.float, .float (.finite negative x)⟩
  | string (s : Text) : WellFormed ⟨.string, .str s⟩

private theorem length_digits_of_parseInteger? {t : Text} {n : Int} (h : parseInteger? t = some n) :
    (toAsciiDigits n.natAbs).length ≤ digitLimit := by
  obtain ⟨negative, digits, -, hdigits, hlimit, rfl⟩ := exists_of_parseInteger? h
  obtain ⟨hne, hall⟩ := isDigits_iff.mp hdigits
  have habs : (if negative then -(ofAsciiDigits digits : Int) else ofAsciiDigits digits).natAbs =
      ofAsciiDigits digits := by
    split <;> simp
  rw [habs]
  exact Nat.le_trans (length_toAsciiDigits_ofAsciiDigits_le hne hall) hlimit

private theorem exists_finite_of_parseFloat? {t : Text} {x : Double} (h : parseFloat? t = some x) :
    ∃ negative magnitude, x = .finite negative magnitude := by
  obtain ⟨-, -, -, -, -, -, -, hfinite⟩ := exists_of_parseFloat? h
  cases x with
  | finite negative magnitude => exact ⟨negative, magnitude, rfl⟩
  | infinite negative => cases hfinite
  | nan => cases hfinite

/-- Only well-formed literals are read. -/
theorem wellFormed_of_parse? {t : Text} {l : Literal} (h : parse? t = some l) : l.WellFormed := by
  simp only [parse?, Option.orElse_eq_orElse, Option.orElse_eq_or, Option.or_eq_some_iff,
    Option.map_eq_some_iff] at h
  rcases h with ⟨b, -, rfl⟩ | ⟨-, ⟨n, hn, rfl⟩ | ⟨-, ⟨x, hx, rfl⟩ | ⟨-, s, -, rfl⟩⟩⟩
  · exact .boolean b
  · exact .integer n (length_digits_of_parseInteger? hn)
  · obtain ⟨negative, magnitude, rfl⟩ := exists_finite_of_parseFloat? hx
    exact .float negative magnitude
  · exact .string s

/-! ## Numbers -/

/-- The sign of a number in front of digits is taken off again. -/
theorem takeMinus_signed {digits : Text} (h : isDigits digits = true) (negative : Bool) (t : Text) :
    takeMinus (Double.signed negative (digits ++ t)) = (negative, digits ++ t) := by
  obtain ⟨c, rest, rfl, hc⟩ := exists_cons_of_isDigits h
  cases negative with
  | true => rfl
  | false => exact takeMinus_of_digit hc (rest ++ t)

/-- A signed number is no truth word. -/
theorem parseBoolean?_signed {digits : Text} (h : isDigits digits = true) (negative : Bool)
    (t : Text) : parseBoolean? (Double.signed negative (digits ++ t)) = none := by
  obtain ⟨c, rest, rfl, hc⟩ := exists_cons_of_isDigits h
  have hne (d : Char) (hd : isAsciiDigit d = false) : c ≠ d := by
    rintro rfl
    rw [hc] at hd
    cases hd
  cases negative with
  | true => simp [parseBoolean?, Double.signed]
  | false => simp [parseBoolean?, Double.signed, hne 't' (by decide), hne 'f' (by decide)]

/-- A sign and up to `digitLimit` digits are read as the number they denote. -/
theorem parseInteger?_signed {digits : Text} (h : isDigits digits = true)
    (hlimit : digits.length ≤ digitLimit) (negative : Bool) :
    parseInteger? (Double.signed negative digits) =
      some (if negative then -(ofAsciiDigits digits : Int) else ofAsciiDigits digits) := by
  have hminus := takeMinus_signed h negative []
  rw [List.append_nil] at hminus
  rw [parseInteger?, hminus]
  simp only [h, hlimit, decide_true, Bool.and_self, if_true]

/-- An integer of at most `digitLimit` digits is read back from its text. -/
theorem parseInteger?_integerText {n : Int} (h : (toAsciiDigits n.natAbs).length ≤ digitLimit) :
    parseInteger? (integerText n) = some n := by
  rw [integerText_eq, parseInteger?_signed (isDigits_toAsciiDigits n.natAbs) h,
    ofAsciiDigits_toAsciiDigits, Option.some.injEq]
  split
  · next hneg =>
    have := of_decide_eq_true hneg
    omega
  · next hneg =>
    have := of_decide_eq_false (Bool.not_eq_true _ ▸ hneg)
    omega

/-- Digits on both sides of a point are read as the decimal they denote. -/
theorem parseFloat?_of_parts {t whole fraction : Text} {negative : Bool}
    (ht : takeMinus t = (negative, whole ++ '.' :: fraction)) (hwhole : isDigits whole = true)
    (hfraction : isDigits fraction = true) {x : Double}
    (hx : Double.ofDecimal negative (Decimal.ofParts whole fraction) = x) :
    parseFloat? t = if x.isFinite then some x else none := by
  obtain ⟨htake, hdrop⟩ := cut_at_point hwhole fraction
  unfold parseFloat?
  rw [ht]
  simp only [htake, hdrop, List.drop_one, List.tail_cons, hwhole, hfraction, Bool.and_self, if_true]
  rw [← Decimal.ofParts, hx]

/-- What has a point in it is no integer. -/
theorem parseInteger?_of_point {t whole fraction : Text} {negative : Bool}
    (ht : takeMinus t = (negative, whole ++ '.' :: fraction)) : parseInteger? t = none := by
  have hrun : isDigits (whole ++ '.' :: fraction) = false := by
    rw [← Bool.not_eq_true, isDigits_iff]
    rintro ⟨-, hall⟩
    exact absurd (hall '.' (by simp)) (by decide)
  rw [parseInteger?, ht]
  simp [hrun]

/-- A decimal whose nearest rank is that of a magnitude is read as that magnitude. -/
theorem ofDecimal_of_nearestRank {d : Decimal} {x : Magnitude} (h : d.nearestRank = x.rank)
    (negative : Bool) : Double.ofDecimal negative d = .finite negative x := by
  unfold Double.ofDecimal
  generalize d.nearestRank = rank at h ⊢
  subst h
  rw [dif_pos x.rank_lt]

private theorem parseFloat?_positional (negative : Bool) (x : Magnitude) :
    parseFloat? (Double.signed negative x.shortest.positional) = some (.finite negative x) := by
  obtain ⟨whole, fraction, htext, hwhole, hfraction, hvalue, -⟩ := x.shortest.exists_positional_eq
  have hminus : takeMinus (Double.signed negative x.shortest.positional) =
      (negative, whole ++ '.' :: fraction) := by
    rw [htext, takeMinus_signed hwhole]
  have hrank : (Decimal.ofParts whole fraction).nearestRank = x.rank :=
    hvalue.nearestRank_eq.trans x.nearestRank_shortest
  rw [parseFloat?_of_parts hminus hwhole hfraction (ofDecimal_of_nearestRank hrank negative)]
  rfl

/-! ## Strings -/

private theorem parseStringTail?_escape (c : Char) (t : Text) :
    parseStringTail? (escape c ++ t) = (parseStringTail? t).map (c :: ·) := by
  unfold escape
  split
  · rfl
  · rfl
  · rfl
  · rfl
  · next hbackslash hquote _ _ =>
    rw [List.singleton_append, parseStringTail?]
    · exact if_neg (not_or.mpr ⟨hquote, hbackslash⟩)
    · exact fun he ↦ absurd he hquote
    · exact fun _ _ he ↦ absurd he hbackslash

/-- Behind a quote at the front only a string is read. -/
theorem parse?_cons_quote (t : Text) :
    parse? ('"' :: t) = (parseStringTail? t).map fun s ↦ ⟨.string, .str s⟩ := by
  have hboolean : parseBoolean? ('"' :: t) = none := by simp [parseBoolean?]
  have hinteger : parseInteger? ('"' :: t) = none := by
    simp [parseInteger?, takeMinus, isDigits, isAsciiDigit]
  have hfloat : parseFloat? ('"' :: t) = none := by
    simp [parseFloat?, takeMinus, isDigits, isAsciiDigit]
  rw [parse?, hboolean, hinteger, hfloat]
  rfl

private theorem parseStringTail?_quote (s : Text) :
    parseStringTail? (s.flatMap escape ++ ['"']) = some s := by
  induction s with
  | nil => rfl
  | cons c s ih => rw [List.flatMap_cons, List.append_assoc, parseStringTail?_escape, ih]; rfl

private theorem escape_inside (c : Char) :
    Mode.inside.after (escape c) = .inside ∧ Text.shown .inside (escape c) = [] := by
  unfold escape
  split
  · exact ⟨rfl, rfl⟩
  · exact ⟨rfl, rfl⟩
  · exact ⟨rfl, rfl⟩
  · exact ⟨rfl, rfl⟩
  · next hbackslash hquote _ _ =>
    have hquote' : c ≠ '"' := hquote
    have hbackslash' : c ≠ '\\' := hbackslash
    simp [Mode.next, Text.shown, Mode.shows, hquote', hbackslash']

/-- Escaped characters are read inside a string literal and show nothing. -/
theorem flatMap_escape_inside (s : Text) :
    Mode.inside.after (s.flatMap escape) = .inside ∧
      Text.shown .inside (s.flatMap escape) = [] := by
  induction s with
  | nil => exact ⟨rfl, rfl⟩
  | cons c s ih =>
    obtain ⟨hafter, hshown⟩ := escape_inside c
    rw [List.flatMap_cons, Mode.after_append, Text.shown_append, hafter, hshown, ih.1, ih.2]
    exact ⟨rfl, rfl⟩

/-- Of a string literal only the two quotes are visible. -/
theorem shown_quote (s : Text) : Text.shown .outside (quote s) = ['"', '"'] := by
  obtain ⟨hafter, hshown⟩ := flatMap_escape_inside s
  change '"' :: Text.shown .inside (s.flatMap escape ++ ['"']) = _
  rw [Text.shown_append, hafter, hshown]
  rfl

/-- A string literal ends outside string literals. -/
theorem after_quote (s : Text) : Mode.outside.after (quote s) = .outside := by
  change Mode.inside.after (s.flatMap escape ++ ['"']) = _
  rw [Mode.after_append, (flatMap_escape_inside s).1]
  rfl

private theorem lineFeed_not_mem_escape (c : Char) : '\n' ∉ escape c := by
  unfold escape
  split
  · decide
  · decide
  · decide
  · decide
  · next _ _ hfeed _ => exact fun hc ↦ hfeed (List.mem_singleton.mp hc).symm

/-- A string literal is a fragment, whatever it holds. -/
theorem fragment_quote (s : Text) : Text.Fragment (quote s) where
  outside := after_quote s
  balanced := by rw [shown_quote]; rfl
  uncut depth _ := by
    rw [shown_quote]
    exact Text.uncut_of_not_mem (by decide) depth
  unterminated := by
    rw [shown_quote]
    decide
  ne_nil := List.cons_ne_nil _ _
  tight := by
    constructor
    · intro c hc
      obtain rfl := Option.some.inj hc
      decide
    · intro c hc
      rw [quote, List.getLast?_concat] at hc
      obtain rfl := Option.some.inj hc
      decide
  oneLine hc := by
    simp only [quote, List.mem_append, List.mem_cons, List.mem_flatMap] at hc
    rcases hc with (hc | ⟨c, -, hc⟩) | hc
    · revert hc
      decide
    · exact lineFeed_not_mem_escape c hc
    · revert hc
      decide

/-! ## Printing and reading -/

/-- The characters of a signed number are plain and not blank. -/
theorem plain_of_signed {negative : Bool} {t : Text}
    (h : ∀ c ∈ t, isAsciiDigit c = true ∨ c = '.') :
    ∀ c ∈ Double.signed negative t, Text.IsPlain c ∧ isBlank c = false := by
  have hdigit (c : Char) (hc : c ∈ t) : Text.IsPlain c ∧ isBlank c = false := by
    rcases h c hc with hc | rfl
    · have hword := isWord_of_isAsciiDigit hc
      exact ⟨Text.isPlain_of_isWord hword, not_isBlank_of_isWord hword⟩
    · decide
  intro c hc
  cases negative with
  | true =>
    rcases List.mem_cons.mp hc with rfl | hc
    · decide
    · exact hdigit c hc
  | false => exact hdigit c hc

/-- What printing and reading a literal rest on: its text is a fragment without parentheses, is no
call and is read as the literal. -/
structure PrintedAs (l : Literal) (t : Text) : Prop where
  print : l.print? = some t
  fragment : Text.Fragment t
  flat : Text.peak (Text.shown .outside t) = 0
  noCall : Text.callParts? t = none
  parse : parse? t = some l

/-- A text of plain characters has no parentheses and is no call. -/
theorem printedAs_of_plain {l : Literal} {t : Text} (hprint : l.print? = some t) (hne : t ≠ [])
    (h : ∀ c ∈ t, Text.IsPlain c ∧ isBlank c = false) (hparse : parse? t = some l) :
    l.PrintedAs t where
  print := hprint
  fragment := Text.fragment_of_plain hne h
  flat := Text.peak_of_plain fun c hc ↦ (h c hc).1
  noCall := Text.callParts?_of_not_mem fun hc ↦ (h _ hc).1.2.1 rfl
  parse := hparse

theorem printedAs_boolean (b : Bool) : PrintedAs ⟨.boolean, .bool b⟩
    (if b then ['t', 'r', 'u', 'e'] else ['f', 'a', 'l', 's', 'e']) := by
  apply printedAs_of_plain rfl
  · cases b <;> decide
  · cases b <;> exact Text.forall_mem_of_all rfl
  · cases b <;> rfl

/-- A sign does not make a text empty. -/
theorem signed_ne_nil {t : Text} (h : t ≠ []) (negative : Bool) :
    Double.signed negative t ≠ [] := by
  cases negative with
  | true => exact List.cons_ne_nil _ _
  | false => exact h

theorem printedAs_integer {n : Int} (h : (toAsciiDigits n.natAbs).length ≤ digitLimit) :
    PrintedAs ⟨.integer, .int n⟩ (integerText n) := by
  have hboolean := parseBoolean?_signed (isDigits_toAsciiDigits n.natAbs) (n < 0) []
  rw [List.append_nil, ← integerText_eq] at hboolean
  apply printedAs_of_plain
  · simp [print?, Value.display?, Value.integerText?, h]
  · rw [integerText_eq]
    exact signed_ne_nil (toAsciiDigits_ne_nil _) _
  · rw [integerText_eq]
    exact plain_of_signed fun d hd ↦ .inl (isAsciiDigit_of_mem_toAsciiDigits hd)
  · rw [parse?, hboolean, parseInteger?_integerText h]
    rfl

/-- What stands in a number with a point. -/
theorem digit_or_point {whole fraction : Text} (hwhole : isDigits whole = true)
    (hfraction : isDigits fraction = true) :
    ∀ c ∈ whole ++ '.' :: fraction, isAsciiDigit c = true ∨ c = '.' :=
  (Numeral.Spelling.ofParts false ⟨whole, hwhole⟩ ⟨fraction, hfraction⟩).digit_or_point

theorem printedAs_float (negative : Bool) (x : Magnitude) :
    PrintedAs ⟨.float, .float (.finite negative x)⟩
      (Double.signed negative x.shortest.positional) := by
  obtain ⟨whole, fraction, htext, hwhole, hfraction, -⟩ := x.shortest.exists_positional_eq
  have hinteger := parseInteger?_of_point (takeMinus_signed hwhole negative ('.' :: fraction))
  apply printedAs_of_plain
  · exact Value.plainNumber?_finite negative x
  · rw [htext]
    exact signed_ne_nil (by simp) negative
  · rw [htext]
    exact plain_of_signed (digit_or_point hwhole hfraction)
  · rw [parse?, parseFloat?_positional, htext, parseBoolean?_signed hwhole, hinteger]
    rfl

theorem printedAs_string (s : Text) : PrintedAs ⟨.string, .str s⟩ (quote s) where
  print := rfl
  fragment := fragment_quote s
  flat := by rw [shown_quote]; rfl
  noCall := Text.callParts?_cons_of_not_word (by decide) _
  parse := by
    change parse? ('"' :: (s.flatMap escape ++ ['"'])) = _
    rw [parse?_cons_quote, parseStringTail?_quote]
    rfl

/-- Every well-formed literal has a text, a fragment from which it is read back. -/
theorem WellFormed.exists_printedAs {l : Literal} (h : l.WellFormed) : ∃ t, l.PrintedAs t := by
  cases h with
  | boolean b => exact ⟨_, printedAs_boolean b⟩
  | integer n h => exact ⟨_, printedAs_integer h⟩
  | float negative x => exact ⟨_, printedAs_float negative x⟩
  | string s => exact ⟨_, printedAs_string s⟩

end Literal

end Lilac
