import Lilac.Data.Json
import Lilac.Proofs.Literals

/-!
# Scalars in JSON

Between the quotes of a JSON string stand UTF-16 code units, written as characters or as escape
sequences. A JSON number has digits without a needless zero in front, and it is an integer unless a
fraction or a power of ten follows. There is no number for what is not finite. A string, an integer
of at most `digitLimit` digits and a finite double are read back from what is written for them.
-/

namespace Lilac

namespace Json

/-! ## Strings -/

/-- The UTF-16 code units of a character. -/
def utf16 (c : Char) : List Nat :=
  let n := c.toNat
  if n < 0x10000 then [n] else [0xd800 + (n - 0x10000) / 0x400, 0xdc00 + (n - 0x10000) % 0x400]

/-- The value of a hexadecimal digit. -/
def hexValue? (c : Char) : Option Nat :=
  if '0' ≤ c ∧ c ≤ '9' then some (c.toNat - '0'.toNat)
  else if 'a' ≤ c ∧ c ≤ 'f' then some (c.toNat - 'a'.toNat + 10)
  else if 'A' ≤ c ∧ c ≤ 'F' then some (c.toNat - 'A'.toNat + 10)
  else none

/-- The code unit that four hexadecimal digits stand for. -/
def unit? (a b c d : Char) : Option Nat := do
  let a ← hexValue? a
  let b ← hexValue? b
  let c ← hexValue? c
  let d ← hexValue? d
  some (4096 * a + 256 * b + 16 * c + d)

/-- The character that a backslash and a letter or mark stand for. -/
def escaped? : Char → Option Char
  | '"' => some '"'
  | '\\' => some '\\'
  | '/' => some '/'
  | 'b' => some '\x08'
  | 'f' => some '\x0c'
  | 'n' => some '\n'
  | 'r' => some '\r'
  | 't' => some '\t'
  | _ => none

/-- The code units of what stands between the quotes of a string. -/
def units? : Text → Option (List Nat)
  | [] => some []
  | '\\' :: 'u' :: a :: b :: c :: d :: t => do
    let n ← unit? a b c d
    (units? t).map (n :: ·)
  | '\\' :: c :: t => do
    let e ← escaped? c
    (units? t).map (utf16 e ++ ·)
  | c :: t => if c = '"' ∨ c = '\\' ∨ c.toNat < 0x20 then none else (units? t).map (utf16 c ++ ·)

/-- The text that code units make up, after the first half of a pair that is still incomplete. A
half without the other makes up nothing. -/
def ofUnitsFrom? : Option Nat → List Nat → Option Text
  | none, [] => some []
  | some _, [] => none
  | none, n :: rest =>
    if 0xd800 ≤ n ∧ n < 0xdc00 then ofUnitsFrom? (some n) rest
    else if 0xdc00 ≤ n ∧ n < 0xe000 then none
    else (ofUnitsFrom? none rest).map (Char.ofNat n :: ·)
  | some high, n :: rest =>
    if 0xdc00 ≤ n ∧ n < 0xe000 then
      (ofUnitsFrom? none rest).map
        (Char.ofNat (0x10000 + (high - 0xd800) * 0x400 + (n - 0xdc00)) :: ·)
    else none

/-- Reads what stands between the quotes of a string. -/
def unescape? (raw : Text) : Option Text := (units? raw).bind (ofUnitsFrom? none)

private theorem hexValue?_hexDigit : ∀ n < 16, hexValue? (hexDigit n) = some n := by
  decide

private theorem units?_unitEscape {n : Nat} (h : n < 0x10000) (t : Text) :
    units? (unitEscape n ++ t) = (units? t).map (n :: ·) := by
  have hunit : unit? (hexDigit (n / 4096 % 16)) (hexDigit (n / 256 % 16)) (hexDigit (n / 16 % 16))
      (hexDigit (n % 16)) = some n := by
    simp only [unit?, hexValue?_hexDigit _ (Nat.mod_lt _ (by decide)), Option.bind_eq_bind,
      Option.bind_some, Option.some.injEq]
    omega
  change units? ('\\' :: 'u' :: hexDigit (n / 4096 % 16) :: hexDigit (n / 256 % 16) ::
    hexDigit (n / 16 % 16) :: hexDigit (n % 16) :: t) = _
  rw [units?, hunit]
  rfl

/-- A character is read back from what is written for it, as its code units. -/
private theorem units?_escape (c : Char) (t : Text) :
    units? (escape c ++ t) = (units? t).map (utf16 c ++ ·) := by
  unfold escape
  split
  · rfl
  · rfl
  · rfl
  · rfl
  · rfl
  · rfl
  · rfl
  · next hquote hbackslash _ _ _ _ _ =>
    have hquote' : c ≠ '"' := hquote
    have hbackslash' : c ≠ '\\' := hbackslash
    dsimp only
    split
    · next hprinted =>
      rw [List.singleton_append, units?]
      · rw [if_neg (by simp [hquote', hbackslash']; omega)]
      · exact fun _ _ _ _ _ he ↦ absurd he hbackslash
      · exact fun _ _ he ↦ absurd he hbackslash
    · split
      · next hsmall =>
        rw [units?_unitEscape hsmall, utf16]
        simp only [if_pos hsmall, List.singleton_append]
      · next hlarge =>
        have hvalid : c.toNat < 0xd800 ∨ 0xdfff < c.toNat ∧ c.toNat < 0x110000 := c.valid
        rw [List.append_assoc, units?_unitEscape (by omega), units?_unitEscape (by omega), utf16]
        simp only [if_neg hlarge, Option.map_map]
        rfl

private theorem ofUnitsFrom?_utf16 (c : Char) (units : List Nat) :
    ofUnitsFrom? none (utf16 c ++ units) = (ofUnitsFrom? none units).map (c :: ·) := by
  have hvalid : c.toNat < 0xd800 ∨ 0xdfff < c.toNat ∧ c.toNat < 0x110000 := c.valid
  unfold utf16
  dsimp only
  split
  · next hsmall =>
    rw [List.singleton_append, ofUnitsFrom?, if_neg (by omega), if_neg (by omega),
      Char.ofNat_toNat]
  · next hlarge =>
    have hpair : 0x10000 + (0xd800 + (c.toNat - 0x10000) / 0x400 - 0xd800) * 0x400 +
        (0xdc00 + (c.toNat - 0x10000) % 0x400 - 0xdc00) = c.toNat := by
      omega
    rw [List.cons_append, List.singleton_append, ofUnitsFrom?, if_pos (by omega), ofUnitsFrom?,
      if_pos (by omega), hpair, Char.ofNat_toNat]

/-- A text is read back from its characters as they are written inside a string. -/
theorem unescape?_flatMap_escape (t : Text) : unescape? (t.flatMap escape) = some t := by
  have hunits (s : Text) : units? (s.flatMap escape) = some (s.flatMap utf16) := by
    induction s with
    | nil => rfl
    | cons c s ih => rw [List.flatMap_cons, units?_escape, ih, List.flatMap_cons, Option.map_some]
  have htext (s : Text) : ofUnitsFrom? none (s.flatMap utf16) = some s := by
    induction s with
    | nil => rfl
    | cons c s ih => rw [List.flatMap_cons, ofUnitsFrom?_utf16, ih, Option.map_some]
  rw [unescape?, hunits, Option.bind_some, htext]

/-! ## Numbers -/

/-- Whether a text can stand in front of the point of a number: digits, of which the first is zero
only if it is the only one. -/
def isWhole (t : Text) : Bool := Literal.isDigits t && (t.length = 1 || t.head? ≠ some '0')

/-- Takes the digits after a point, if there is one, off what follows the digits before it. -/
def fraction? : Text → Option (Text × Text)
  | '.' :: t =>
    if t.takeWhile isAsciiDigit = [] then none
    else some (t.takeWhile isAsciiDigit, t.dropWhile isAsciiDigit)
  | t => some ([], t)

/-- Reads the power of ten of a number, if there is one. -/
def power? : Text → Option Int
  | [] => some 0
  | c :: t =>
    let (down, digits) := takeSign t
    if (c = 'e' ∨ c = 'E') ∧ Literal.isDigits digits then
      some (if down then -(ofAsciiDigits digits : Int) else ofAsciiDigits digits)
    else none

/-- Reads a number: an integer, or the double nearest to what is written. -/
def number? (t : Text) : Option Value :=
  let (negative, body) := Literal.takeMinus t
  let whole := body.takeWhile isAsciiDigit
  let rest := body.dropWhile isAsciiDigit
  if !isWhole whole then none
  else if rest = [] then (Literal.parseInteger? t).map .int
  else do
    let (fraction, rest) ← fraction? rest
    let power ← power? rest
    some (.float (.ofDecimal negative ⟨ofAsciiDigits (whole ++ fraction),
      power - fraction.length⟩))

/-- The digits of a number have no needless zero in front. -/
theorem isWhole_toAsciiDigits (n : Nat) : isWhole (toAsciiDigits n) = true := by
  have hdigits := Literal.isDigits_toAsciiDigits n
  have hvalue := ofAsciiDigits_toAsciiDigits n
  obtain ⟨hne, hall⟩ := Literal.isDigits_iff.mp hdigits
  obtain ⟨c, rest, hcons⟩ := List.exists_cons_of_ne_nil hne
  rw [isWhole, hdigits, Bool.true_and, hcons]
  by_cases hzero : c = '0'
  · -- The digits after a leading zero denote the same number, so there are none.
    by_cases hrest : rest = []
    · rw [hrest]
      rfl
    · have hsame : ofAsciiDigits rest = n := by
        rw [← hvalue, hcons, hzero]
        rfl
      have hlength := length_toAsciiDigits_ofAsciiDigits_le hrest fun d hd ↦
        hall d (hcons ▸ List.mem_cons_of_mem c hd)
      rw [hsame, hcons, List.length_cons] at hlength
      omega
  · simp [hzero]

/-- The first digits of a number have no needless zero in front either. -/
theorem isWhole_take {t : Text} (h : isWhole t = true) {k : Nat} (hk : 0 < k) :
    isWhole (t.take k) = true := by
  obtain ⟨hdigits, hhead⟩ := (Bool.and_eq_true _ _).mp h
  obtain ⟨c, rest, rfl, hc⟩ := Literal.exists_cons_of_isDigits hdigits
  obtain ⟨k, rfl⟩ := Nat.exists_eq_succ_of_ne_zero (Nat.ne_of_gt hk)
  have hall := (Literal.isDigits_iff.mp hdigits).2
  have htake : Literal.isDigits ((c :: rest).take (k + 1)) = true :=
    Literal.isDigits_iff.mpr ⟨by simp, fun d hd ↦ hall d (List.mem_of_mem_take hd)⟩
  rw [isWhole, htake, Bool.true_and]
  by_cases hzero : c = '0'
  · have hrest : rest = [] := by simpa [hzero] using hhead
    simp [hrest]
  · simp [hzero]

private theorem isDigits_of_isWhole {t : Text} (h : isWhole t = true) : Literal.isDigits t = true :=
  ((Bool.and_eq_true _ _).mp h).1

/-- Digits are taken up to the first other character, and what they leave starts with it. -/
theorem takeWhile_digits_append {a t : Text} (ha : ∀ c ∈ a, isAsciiDigit c = true)
    (ht : ∀ c ∈ t.head?, isAsciiDigit c = false) :
    (a ++ t).takeWhile isAsciiDigit = a ∧ (a ++ t).dropWhile isAsciiDigit = t :=
  ⟨Text.takeWhile_append_of_head ha ht, Text.dropWhile_append_of_head ha ht⟩

/-- A positional text has no needless zero in front of its point. -/
private theorem isWhole_positional (d : Decimal) :
    isWhole (d.positional.takeWhile isAsciiDigit) = true := by
  have hpoint (t : Text) : ∀ c ∈ ('.' :: t).head?, isAsciiDigit c = false :=
    Text.forall_mem_head?_cons (by decide) t
  rw [Decimal.positional]
  split
  · rw [(takeWhile_digits_append (fun c hc ↦ isAsciiDigit_of_mem_toAsciiDigits hc) (hpoint _)).1]
    exact isWhole_toAsciiDigits _
  · next hexponent =>
    have hall : ∀ c ∈ Decimal.padLeft ((-d.exponent).toNat + 1) d.digits,
        isAsciiDigit c = true := Decimal.isAsciiDigit_of_mem_padLeft
    have hplaces : 0 < (-d.exponent).toNat := by omega
    generalize (-d.exponent).toNat = places at hall hplaces
    dsimp only
    rw [(takeWhile_digits_append (fun c hc ↦ hall c (List.mem_of_mem_take hc)) (hpoint _)).1]
    by_cases hpadded : d.digits.length ≤ places
    · have hlength : (Decimal.padLeft (places + 1) d.digits).length - places = 1 := by
        rw [Decimal.padLeft, List.length_append, List.length_replicate]
        omega
      rw [hlength, Decimal.padLeft, Nat.succ_sub hpadded, List.replicate_succ]
      rfl
    · rw [Decimal.padLeft_eq_self (by omega)]
      exact isWhole_take (isWhole_toAsciiDigits _) (by omega)

private theorem isWhole_scientific (d : Decimal) :
    isWhole (d.scientific.takeWhile isAsciiDigit) = true := by
  have hdigit : ∀ c ∈ d.digits.take 1, isAsciiDigit c = true := fun c hc ↦
    isAsciiDigit_of_mem_toAsciiDigits (List.mem_of_mem_take hc)
  have hrest (t : Text) : ∀ c ∈ ((if (d.digits.drop 1).isEmpty then [] else '.' :: d.digits.drop 1)
      ++ 'e' :: t).head?, isAsciiDigit c = false := by
    split <;> exact Text.forall_mem_head?_cons (by decide) _
  rw [Decimal.scientific]
  simp only [List.append_assoc, List.cons_append]
  rw [Text.takeWhile_append_of_head hdigit (hrest _)]
  exact isWhole_take (isWhole_toAsciiDigits _) Nat.one_pos

/-- An integer of at most `digitLimit` digits is read back as an integer. -/
theorem number?_integerText {n : Int} (h : (toAsciiDigits n.natAbs).length ≤ digitLimit) :
    number? (integerText n) = some (.int n) := by
  have hwhole := isWhole_toAsciiDigits n.natAbs
  have hdigits := isDigits_of_isWhole hwhole
  have hminus := Literal.takeMinus_signed hdigits (n < 0) []
  rw [List.append_nil, ← Literal.integerText_eq] at hminus
  have hsplit := takeWhile_digits_append (t := []) (Literal.isDigits_iff.mp hdigits).2 nofun
  rw [List.append_nil] at hsplit
  rw [number?, hminus]
  dsimp only
  rw [hsplit.1, hsplit.2, hwhole, Literal.parseInteger?_integerText h]
  rfl

private theorem fraction?_spelling (s : Numeral.Spelling) :
    fraction? (Digits.behindPoint s.fraction ++ s.powerText) =
      some (s.fractionDigits, s.powerText) := by
  rw [Numeral.Spelling.fractionDigits]
  cases s.fraction with
  | none =>
    rw [Digits.behindPoint, List.nil_append, Digits.optional, Numeral.Spelling.powerText]
    split <;> rfl
  | some digits =>
    obtain ⟨htake, hdrop⟩ := takeWhile_digits_append digits.digit s.not_digit_of_head_powerText
    rw [Digits.behindPoint, List.cons_append, fraction?, htake, hdrop, if_neg digits.ne_nil,
      Digits.optional]

private theorem power?_spelling (s : Numeral.Spelling) : power? s.powerText = some s.exponent := by
  rw [Numeral.Spelling.powerText, Numeral.Spelling.exponent]
  cases s.power with
  | none => rfl
  | some power =>
    obtain ⟨down, digits⟩ := power
    have hvalue : ofAsciiDigits digits.text = digits.value := ofAsciiDigits_eq _
    dsimp only
    rw [power?, takeSign_sign]
    simp [digits.isDigits, hvalue]

private theorem number?_spelling {s : Numeral.Spelling} (hwhole : isWhole s.whole.text = true)
    (hrest : Digits.behindPoint s.fraction ++ s.powerText ≠ []) :
    number? s.text = some (.float (.ofDecimal s.negative s.decimal)) := by
  obtain ⟨htake, hdrop⟩ := s.cut_at_whole
  have hminus : Literal.takeMinus s.text = (s.negative, s.mantissa ++ s.powerText) := by
    rw [Numeral.Spelling.text, Numeral.Spelling.mantissa, List.append_assoc,
      Literal.takeMinus_signed s.whole.isDigits]
  rw [number?, hminus]
  dsimp only
  rw [htake, hdrop, hwhole, if_neg hrest, fraction?_spelling]
  dsimp only [bind, Option.bind]
  rw [power?_spelling, Numeral.Spelling.decimal, Int.add_comm, ← Int.sub_eq_add_neg]
  rfl

/-- A finite double is written as it is shown. -/
theorem number_finite (negative : Bool) (x : Magnitude) :
    number (.finite negative x) = Double.text (.finite negative x) := by
  rw [number]
  · nofun
  · nofun

/-- A finite double is read back from the text that is written for it. -/
theorem number?_number (negative : Bool) (x : Magnitude) :
    number? (number (.finite negative x)) = some (.float (.finite negative x)) := by
  obtain ⟨s, hnegative, htext, hrank, -⟩ := Double.exists_spelling negative x
  have hbody : s.mantissa ++ s.powerText =
      if -4 ≤ x.shortest.leadingExponent ∧ x.shortest.leadingExponent < 16 then
        x.shortest.positional
      else x.shortest.scientific := by
    rw [Numeral.Spelling.text, hnegative, Double.text] at htext
    cases negative with
    | true => exact (List.cons.inj htext).2
    | false => exact htext
  have hwhole : isWhole s.whole.text = true := by
    rw [← s.cut_at_whole.1, hbody]
    split
    · exact isWhole_positional _
    · exact isWhole_scientific _
  -- a point or the letter of a power of ten stands behind the first digits
  have hrest : Digits.behindPoint s.fraction ++ s.powerText ≠ [] := by
    intro hnil
    have hall : ∀ c ∈ s.mantissa ++ s.powerText, isAsciiDigit c = true := by
      rw [Numeral.Spelling.mantissa, List.append_assoc, hnil, List.append_nil]
      exact s.whole.digit
    rw [hbody] at hall
    split at hall
    · obtain ⟨whole, fraction, hparts, -⟩ := x.shortest.exists_positional_eq
      exact absurd (hall '.' (by simp [hparts])) (by decide)
    · exact absurd (hall 'e' (by simp [Decimal.scientific])) (by decide)
  rw [number_finite, ← htext, number?_spelling hwhole hrest, hnegative,
    Literal.ofDecimal_of_nearestRank hrank]

end Json

end Lilac
