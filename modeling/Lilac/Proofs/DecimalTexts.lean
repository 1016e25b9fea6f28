import Lilac.Proofs.Rounding
import Lilac.Proofs.Trimming

/-!
# Spelt numbers

A number is spelt as an optional minus sign, digits, an optional fraction and an optional power of
ten with a sign of its own. Such a text is read as the decimal that its parts denote, with no digit
lost. Integers and finite doubles are shown in this way, so writing a double out without an exponent
gives its shortest decimal in positional notation.
-/

namespace Lilac

/-! ## Digits and signs -/

private theorem digitValue?_of_isAsciiDigit {c : Char} (h : isAsciiDigit c = true) :
    digitValue? c = some (asciiDigitValue c) := by
  obtain ⟨hlow, hhigh⟩ := isAsciiDigit_iff.mp h
  have hfirst : (0x30 ≤ c.toNat && c.toNat < 0x30 + 10) = true := by
    rw [Bool.and_eq_true, decide_eq_true_eq, decide_eq_true_eq]
    omega
  have hcodes : zeroCodes = 0x30 :: zeroCodes.tail := rfl
  rw [digitValue?, hcodes, List.find?_cons]
  simp only [hfirst]
  rfl

private theorem digitValues?_of_digits {t : Text} (hne : t ≠ [])
    (h : ∀ c ∈ t, isAsciiDigit c = true) : digitValues? t = some (t.map asciiDigitValue) := by
  induction t with
  | nil => exact absurd rfl hne
  | cons c t ih =>
    obtain ⟨hc, ht⟩ := List.forall_mem_cons.mp h
    cases t with
    | nil => rw [digitValues?, digitValue?_of_isAsciiDigit hc]; rfl
    | cons d t =>
      have hd : d ≠ '_' := by
        rintro rfl
        exact absurd (ht '_' List.mem_cons_self) (by decide)
      rw [digitValues?, digitValue?_of_isAsciiDigit hc, ih (List.cons_ne_nil d t) ht]
      · rfl
      · exact List.cons_ne_nil d t
      · exact fun _ heq ↦ hd (List.cons.inj heq).1

/-- The values of ASCII digits denote the number that the digits denote. -/
theorem ofDigitValues_map (t : Text) : ofDigitValues (t.map asciiDigitValue) = ofAsciiDigits t :=
  List.foldl_map

private theorem trimNumber_eq_self {t : Text} (h : t.Tight) : trimNumber t = t := by
  have hblank {c : Char} (hc : isBlank c = false) : isNumberBlank c = false := by
    rw [isNumberBlank, hc, Bool.false_and]
  have hfront : t.dropWhile isNumberBlank = t :=
    Text.dropWhile_append_of_head (a := []) (List.forall_mem_nil _)
      fun c hc ↦ hblank (h.1 c hc)
  have hback : t.reverse.dropWhile isNumberBlank = t.reverse :=
    Text.dropWhile_append_of_head (a := []) (s := t.reverse) (List.forall_mem_nil _)
      fun c hc ↦ hblank (h.2 c (by rwa [List.head?_reverse] at hc))
  rw [trimNumber, hfront, hback, List.reverse_reverse]

private theorem takeSign_signed {digits : Text} (h : Literal.isDigits digits = true)
    (negative : Bool) (t : Text) :
    takeSign (Double.signed negative (digits ++ t)) = (negative, digits ++ t) := by
  obtain ⟨c, rest, rfl, hc⟩ := Literal.exists_cons_of_isDigits h
  cases negative with
  | true => rfl
  | false =>
    rw [Double.signed, if_neg Bool.false_ne_true, List.cons_append, takeSign]
    · rintro s hs
      obtain ⟨rfl, -⟩ := List.cons.inj hs
      exact absurd hc (by decide)
    · rintro s hs
      obtain ⟨rfl, -⟩ := List.cons.inj hs
      exact absurd hc (by decide)

/-- One of the two signs is taken off. -/
theorem takeSign_sign (p : Prop) [Decidable p] (t : Text) :
    takeSign ((if p then '-' else '+') :: t) = (decide p, t) := by
  split
  · next h => simp [takeSign, h]
  · next h => simp [takeSign, h]

namespace Literal

/-- The text of an integer is its sign and its digits. -/
theorem integerText_eq (n : Int) :
    integerText n = Double.signed (n < 0) (toAsciiDigits n.natAbs) := by
  cases n with
  | ofNat n => simp [integerText, Double.signed]
  | negSucc n => simp [integerText, Double.signed, Int.negSucc_lt_zero]

/-- Digits are cut off in front of a text that is empty or starts with a point. -/
theorem cut_before_point {whole : Text} (h : isDigits whole = true) (rest : Text)
    (hrest : ∀ c ∈ rest.head?, c = '.') :
    (whole ++ rest).takeWhile (fun c ↦ decide (c ≠ '.')) = whole ∧
      (whole ++ rest).dropWhile (fun c ↦ decide (c ≠ '.')) = rest := by
  have hdigits : ∀ c ∈ whole, decide (c ≠ '.') = true := by
    intro c hc
    rw [decide_eq_true_eq]
    rintro rfl
    exact absurd ((isDigits_iff.mp h).2 '.' hc) (by decide)
  have hpoint : ∀ c ∈ rest.head?, decide (c ≠ '.') = false := by
    intro c hc
    rw [hrest c hc]
    rfl
  exact ⟨Text.takeWhile_append_of_head hdigits hpoint, Text.dropWhile_append_of_head hdigits hpoint⟩

/-- Digits are cut off at the point behind them. -/
theorem cut_at_point {whole : Text} (h : isDigits whole = true) (fraction : Text) :
    (whole ++ '.' :: fraction).takeWhile (fun c ↦ decide (c ≠ '.')) = whole ∧
      (whole ++ '.' :: fraction).dropWhile (fun c ↦ decide (c ≠ '.')) = '.' :: fraction :=
  cut_before_point h _ (Text.forall_mem_head?_cons (P := fun c ↦ c = '.') rfl fraction)

end Literal

/-- One or more ASCII digits. -/
structure Digits where
  text : Text
  isDigits : Literal.isDigits text = true

namespace Digits

variable (digits : Digits)

/-- A run of digits is not empty. -/
theorem ne_nil : digits.text ≠ [] := (Literal.isDigits_iff.mp digits.isDigits).1

/-- A run of digits consists of digits. -/
theorem digit : ∀ c ∈ digits.text, isAsciiDigit c = true :=
  (Literal.isDigits_iff.mp digits.isDigits).2

/-- The number that the digits denote. -/
def value : Nat := Nat.ofDigitChars 10 digits.text 0

/-- The digits of a number. -/
def ofNat (n : Nat) : Digits := ⟨toAsciiDigits n, Literal.isDigits_toAsciiDigits n⟩

/-- The digits of a number denote it. -/
theorem value_ofNat (n : Nat) : (ofNat n).value = n := by
  rw [value, ← ofAsciiDigits_eq]
  exact ofAsciiDigits_toAsciiDigits n

/-- Digits are read one by one. -/
theorem digitValues?_text : digitValues? digits.text = some (digits.text.map asciiDigitValue) :=
  digitValues?_of_digits digits.ne_nil digits.digit

private theorem ofDigitValues_text :
    ofDigitValues (digits.text.map asciiDigitValue) = digits.value := by
  rw [ofDigitValues_map, ofAsciiDigits_eq, value]

/-- Digits that may be absent. -/
def optional : Option Digits → Text
  | none => []
  | some digits => digits.text

/-- A point with digits behind it, or nothing. -/
def behindPoint : Option Digits → Text
  | none => []
  | some digits => '.' :: digits.text

private theorem exists_optional {t : Text} (h : ∀ c ∈ t, isAsciiDigit c = true) :
    ∃ digits : Option Digits, optional digits = t ∧
      behindPoint digits = if t.isEmpty then [] else '.' :: t := by
  cases t with
  | nil => exact ⟨none, rfl, rfl⟩
  | cons c t => exact ⟨some ⟨c :: t, Literal.isDigits_iff.mpr ⟨List.cons_ne_nil c t, h⟩⟩, rfl, rfl⟩

end Digits

/-! ## Spellings -/

namespace Numeral

/-- How a number is spelt: an optional minus sign, digits, an optional fraction, and an optional
power of ten whose sign is `true` for minus. -/
structure Spelling where
  negative : Bool
  whole : Digits
  fraction : Option Digits
  power : Option (Bool × Digits)

/-- Whether a character can stand in a spelt number. -/
def IsNumeric (c : Char) : Prop := isAsciiDigit c = true ∨ c ∈ ['.', 'e', '-', '+']

private theorem IsNumeric.not_isBlank {c : Char} (h : IsNumeric c) : isBlank c = false := by
  rcases h with h | h
  · exact not_isBlank_of_isWord (isWord_of_isAsciiDigit h)
  · exact Text.forall_mem_of_all (P := fun c ↦ isBlank c = false) rfl c h

private theorem IsNumeric.toLower_eq {c : Char} (h : IsNumeric c) : c.toLower = c := by
  rcases h with h | h
  · have hbound := (isAsciiDigit_iff.mp h).2
    have hletter : ¬(c.val ≥ 'A'.val ∧ c.val ≤ 'Z'.val) := by
      rintro ⟨hlow, -⟩
      have hcode : 0x41 ≤ c.toNat := UInt32.le_iff_toNat_le.mp hlow
      omega
    exact dif_neg hletter
  · exact Text.forall_mem_of_all (P := fun c ↦ c.toLower = c) rfl c h

namespace Spelling

variable (s : Spelling)

/-- The digits behind the point. -/
def fractionDigits : Text := Digits.optional s.fraction

/-- The digits with the point among them. -/
def mantissa : Text := s.whole.text ++ Digits.behindPoint s.fraction

/-- The power of ten behind the mantissa. -/
def powerText : Text :=
  match s.power with
  | none => []
  | some (down, digits) => 'e' :: (if down then '-' else '+') :: digits.text

/-- The spelt text. -/
def text : Text := Double.signed s.negative (s.mantissa ++ s.powerText)

/-- The exponent of the power of ten. -/
def exponent : Int :=
  match s.power with
  | none => 0
  | some (down, digits) => if down then -(digits.value : Int) else digits.value

/-- The decimal that the digits, the place of the point and the exponent make up. -/
def decimal : Decimal :=
  ⟨ofAsciiDigits (s.whole.text ++ s.fractionDigits), -s.fractionDigits.length + s.exponent⟩

/-- Digits on both sides of a point. -/
def ofParts (negative : Bool) (whole fraction : Digits) : Spelling :=
  ⟨negative, whole, some fraction, none⟩

/-- Digits on both sides of a point are spelt with nothing behind them. -/
theorem text_ofParts (negative : Bool) (whole fraction : Digits) :
    (ofParts negative whole fraction).text =
      Double.signed negative (whole.text ++ '.' :: fraction.text) :=
  congrArg (Double.signed negative) (List.append_nil _)

/-- Digits on both sides of a point make up the decimal with as many places as there are behind
the point. -/
theorem decimal_ofParts (negative : Bool) (whole fraction : Digits) :
    (ofParts negative whole fraction).decimal = Decimal.ofParts whole.text fraction.text :=
  congrArg (Decimal.mk _) (Int.add_zero _)

/-- The digits of an integer with its sign. -/
def ofInt (n : Int) : Spelling := ⟨n < 0, .ofNat n.natAbs, none, none⟩

/-- An integer is spelt as its text. -/
theorem text_ofInt (n : Int) : (ofInt n).text = integerText n := by
  rw [Literal.integerText_eq]
  simp [text, mantissa, powerText, Digits.behindPoint, ofInt, Digits.ofNat]

/-- A mantissa consists of digits and points. -/
theorem digit_or_point : ∀ c ∈ s.mantissa, isAsciiDigit c = true ∨ c = '.' := by
  intro c hc
  rcases List.mem_append.mp hc with hc | hc
  · exact .inl (s.whole.digit c hc)
  · cases hfraction : s.fraction with
    | none =>
      rw [hfraction] at hc
      cases hc
    | some digits =>
      rw [hfraction] at hc
      rcases List.mem_cons.mp hc with rfl | hc
      · exact .inr rfl
      · exact .inl (digits.digit c hc)

/-- Only numeric characters stand behind the sign of a spelt number. -/
theorem isNumeric_of_mem_body : ∀ c ∈ s.mantissa ++ s.powerText, IsNumeric c := by
  intro c hc
  rcases List.mem_append.mp hc with hc | hc
  · exact (s.digit_or_point c hc).imp id fun h ↦ by simp [h]
  · rw [powerText] at hc
    split at hc
    · cases hc
    · next down digits _ =>
      rcases List.mem_cons.mp hc with rfl | hc
      · exact .inr (by decide)
      · rcases List.mem_cons.mp hc with rfl | hc
        · cases down <;> exact .inr (by decide)
        · exact .inl (digits.digit c hc)

/-- Only numeric characters stand in a spelt number. -/
theorem isNumeric_of_mem_text : ∀ c ∈ s.text, IsNumeric c := by
  intro c hc
  rw [text, Double.signed] at hc
  split at hc
  · rcases List.mem_cons.mp hc with rfl | hc
    · exact .inr (by decide)
    · exact s.isNumeric_of_mem_body c hc
  · exact s.isNumeric_of_mem_body c hc

private theorem tight_text : s.text.Tight :=
  ⟨fun c hc ↦ (s.isNumeric_of_mem_text c (List.mem_of_mem_head? hc)).not_isBlank,
    fun c hc ↦ (s.isNumeric_of_mem_text c (List.mem_of_mem_getLast? hc)).not_isBlank⟩

/-- A power of ten starts with its letter. -/
theorem eq_of_head_powerText : ∀ c ∈ s.powerText.head?, c = 'e' := by
  rw [powerText]
  split
  · nofun
  · exact Text.forall_mem_head?_cons (P := fun c ↦ c = 'e') rfl _

/-- A power of ten does not start with a digit. -/
theorem not_digit_of_head_powerText : ∀ c ∈ s.powerText.head?, isAsciiDigit c = false := by
  intro c hc
  rw [s.eq_of_head_powerText c hc]
  rfl

/-- The digits in front of the point end where the point or the power of ten begins. -/
theorem cut_at_whole :
    (s.mantissa ++ s.powerText).takeWhile isAsciiDigit = s.whole.text ∧
      (s.mantissa ++ s.powerText).dropWhile isAsciiDigit =
        Digits.behindPoint s.fraction ++ s.powerText := by
  have hrest : ∀ c ∈ (Digits.behindPoint s.fraction ++ s.powerText).head?,
      isAsciiDigit c = false := by
    cases s.fraction with
    | none => exact s.not_digit_of_head_powerText
    | some digits => exact Text.forall_mem_head?_cons (by decide) _
  rw [mantissa, List.append_assoc]
  exact ⟨Text.takeWhile_append_of_head s.whole.digit hrest,
    Text.dropWhile_append_of_head s.whole.digit hrest⟩

private theorem cut_at_power :
    (s.mantissa ++ s.powerText).takeWhile (fun c ↦ decide (c ≠ 'e')) = s.mantissa ∧
      (s.mantissa ++ s.powerText).dropWhile (fun c ↦ decide (c ≠ 'e')) = s.powerText := by
  have hmantissa : ∀ c ∈ s.mantissa, decide (c ≠ 'e') = true := by
    intro c hc
    rw [decide_eq_true_eq]
    rintro rfl
    exact absurd (s.digit_or_point 'e' hc) (by decide)
  have hpower : ∀ c ∈ s.powerText.head?, decide (c ≠ 'e') = false := by
    intro c hc
    rw [s.eq_of_head_powerText c hc]
    rfl
  exact ⟨Text.takeWhile_append_of_head hmantissa hpower,
    Text.dropWhile_append_of_head hmantissa hpower⟩

private theorem mantissa?_mantissa :
    mantissa? s.mantissa =
      some ⟨ofAsciiDigits (s.whole.text ++ s.fractionDigits), -s.fractionDigits.length⟩ := by
  have hdigits (digits : Digits) :
      digitsOrNone? digits.text = some (digits.text.map asciiDigitValue) := by
    rw [digitsOrNone?, List.isEmpty_eq_false_iff.mpr digits.ne_nil, if_neg Bool.false_ne_true,
      digits.digitValues?_text]
  have hwhole := List.isEmpty_eq_false_iff.mpr s.whole.ne_nil
  rw [mantissa, fractionDigits]
  cases s.fraction with
  | none =>
    obtain ⟨htake, hdrop⟩ := Literal.cut_before_point s.whole.isDigits [] nofun
    simp only [mantissa?, Digits.behindPoint, htake, hdrop, hwhole, hdigits, Bool.false_and]
    simp [digitsOrNone?, ofDigitValues_map, Digits.optional]
  | some digits =>
    obtain ⟨htake, hdrop⟩ := Literal.cut_at_point s.whole.isDigits digits.text
    simp only [mantissa?, Digits.behindPoint, htake, hdrop, hwhole, List.drop_succ_cons,
      List.drop_zero, hdigits, Bool.false_and]
    simp [← List.map_append, ofDigitValues_map, Digits.optional]

private theorem power?_powerText : power? s.powerText = some s.exponent := by
  rw [powerText, exponent]
  cases s.power with
  | none => rfl
  | some power =>
    obtain ⟨down, digits⟩ := power
    rw [power?, takeSign_sign]
    simp [digits.digitValues?_text, digits.ofDigitValues_text]

/-- A spelt number is read as its sign and its decimal, without rounding. -/
theorem read?_text : read? s.text = some (.finite s.negative s.decimal) := by
  obtain ⟨htake, hdrop⟩ := s.cut_at_power
  have hsign : takeSign s.text = (s.negative, s.mantissa ++ s.powerText) := by
    rw [text, mantissa, List.append_assoc, takeSign_signed s.whole.isDigits]
  have hlower : (s.mantissa ++ s.powerText).map Char.toLower = s.mantissa ++ s.powerText := by
    rw [List.map_congr_left fun c hc ↦ (s.isNumeric_of_mem_body c hc).toLower_eq, List.map_id']
  -- the words for infinities and for not a number start with a letter
  have hnoword {word : Text} (h : word.head?.any isAsciiDigit = false) :
      s.mantissa ++ s.powerText ≠ word := by
    rintro rfl
    obtain ⟨c, digits, hdigits, hc⟩ := Literal.exists_cons_of_isDigits s.whole.isDigits
    have hhead : isAsciiDigit c = false := by simpa [mantissa, hdigits] using h
    rw [hhead] at hc
    cases hc
  rw [read?, trimNumber_eq_self s.tight_text, hsign]
  simp only [hlower]
  rw [if_neg (not_or.mpr ⟨hnoword (by decide), hnoword (by decide)⟩), if_neg (hnoword (by decide)),
    htake, hdrop, s.mantissa?_mantissa, s.power?_powerText]
  rfl

/-- A spelt number is written out as its decimal in positional notation. -/
theorem writeOut?_text :
    writeOut? s.text = some (Double.signed s.negative s.decimal.positional) := by
  rw [writeOut?, s.read?_text]
  rfl

end Spelling

end Numeral

/-! ## Numbers as they are shown -/

namespace Decimal

private theorem exists_spelling_positional (negative : Bool) (d : Decimal) :
    ∃ s : Numeral.Spelling, s.negative = negative ∧ s.text = Double.signed negative d.positional ∧
      s.decimal.SameValue d ∧ s.decimal.positional = d.positional := by
  obtain ⟨whole, fraction, htext, hwhole, hfraction, hvalue, hpositional⟩ := d.exists_positional_eq
  refine ⟨.ofParts negative ⟨whole, hwhole⟩ ⟨fraction, hfraction⟩, rfl, ?_, ?_⟩
  · rw [Numeral.Spelling.text_ofParts, htext]
  · rw [Numeral.Spelling.decimal_ofParts]
    exact ⟨hvalue, hpositional⟩

/-- The digits of an exponent, at least two of them. -/
def exponentDigits (power : Int) : Digits where
  text := padLeft 2 (toAsciiDigits power.natAbs)
  isDigits := by
    refine Literal.isDigits_iff.mpr
      ⟨fun hnil ↦ ?_, isAsciiDigit_of_mem_padLeft (d := ⟨power.natAbs, 0⟩)⟩
    have hlength := le_length_padLeft 2 (toAsciiDigits power.natAbs)
    rw [hnil] at hlength
    cases hlength

private theorem value_exponentDigits (power : Int) :
    (exponentDigits power).value = power.natAbs := by
  rw [Digits.value, ← ofAsciiDigits_eq]
  exact ofAsciiDigits_padLeft ⟨power.natAbs, 0⟩ 2

/-- A decimal in scientific notation is a spelt number, and it is the decimal that is spelt. -/
private theorem exists_spelling_scientific (negative : Bool) (d : Decimal) :
    ∃ s : Numeral.Spelling, s.negative = negative ∧ s.text = Double.signed negative d.scientific ∧
      s.decimal = d := by
  obtain ⟨c, rest, hcons, hc⟩ :=
    Literal.exists_cons_of_isDigits (Literal.isDigits_toAsciiDigits d.coefficient)
  have hdigits : d.digits = c :: rest := hcons
  have hrest : ∀ x ∈ rest, isAsciiDigit x = true := fun x hx ↦
    isAsciiDigit_of_mem_toAsciiDigits (hcons ▸ List.mem_cons_of_mem c hx)
  have hleading : Literal.isDigits [c] = true := by simp [Literal.isDigits, hc]
  obtain ⟨fraction, hfraction, hpoint⟩ := Digits.exists_optional hrest
  refine ⟨⟨negative, ⟨[c], hleading⟩, fraction,
    some (d.leadingExponent < 0, exponentDigits d.leadingExponent)⟩, rfl, ?_, ?_⟩
  · simp [Numeral.Spelling.text, Numeral.Spelling.mantissa, Numeral.Spelling.powerText, hpoint,
      scientific, hdigits, exponentDigits]
  · have hexponent : (if d.leadingExponent < 0 then -(d.leadingExponent.natAbs : Int)
        else d.leadingExponent.natAbs) = d.leadingExponent := by
      split <;> omega
    have hlength : -(rest.length : Int) + d.leadingExponent = d.exponent := by
      rw [leadingExponent, hdigits, List.length_cons]
      omega
    simp only [Numeral.Spelling.decimal, Numeral.Spelling.fractionDigits,
      Numeral.Spelling.exponent, hfraction, value_exponentDigits, decide_eq_true_eq, hexponent,
      hlength, List.singleton_append, ← hcons, ofAsciiDigits_toAsciiDigits]

end Decimal

/-- A finite double is shown as a spelt number with the sign of the double. The number is read as
the double, and its positional text is that of the shortest decimal. -/
theorem Double.exists_spelling (negative : Bool) (x : Magnitude) :
    ∃ s : Numeral.Spelling, s.negative = negative ∧ s.text = text (.finite negative x) ∧
      s.decimal.nearestRank = x.rank ∧ s.decimal.positional = x.shortest.positional := by
  rw [text]
  split
  · obtain ⟨s, hnegative, htext, hvalue, hpositional⟩ :=
      x.shortest.exists_spelling_positional negative
    exact ⟨s, hnegative, htext, hvalue.nearestRank_eq.trans x.nearestRank_shortest, hpositional⟩
  · obtain ⟨s, hnegative, htext, hdecimal⟩ := x.shortest.exists_spelling_scientific negative
    refine ⟨s, hnegative, htext, ?_, ?_⟩
    · rw [hdecimal, x.nearestRank_shortest]
    · rw [hdecimal]

/-- A finite double is written out as its shortest decimal in positional notation. -/
theorem Value.plainNumber?_finite (negative : Bool) (x : Magnitude) :
    plainNumber? (.float (.finite negative x)) =
      some (Double.signed negative x.shortest.positional) := by
  obtain ⟨s, hnegative, htext, -, hdecimal⟩ := Double.exists_spelling negative x
  have hshown : shown? (.float (.finite negative x)) = some s.text := by rw [htext]; rfl
  rw [plainNumber?, hshown, Option.bind_some, s.writeOut?_text, hnegative, hdecimal]

end Lilac
