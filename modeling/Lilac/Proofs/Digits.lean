import Lilac.Literal
import Lilac.Proofs.Characters

/-!
# Base ten

Writing a number in base ten and reading its digits gives the number back, zeros in front of the
digits do not count, and a number read from `k` digits has at most `k` digits.
-/

namespace Lilac

/-- Reading digits is core's base ten evaluation. -/
theorem ofAsciiDigits_eq (digits : List Char) :
    ofAsciiDigits digits = Nat.ofDigitChars 10 digits 0 :=
  Nat.ofDigitChars_eq_foldl.symm

/-- The digits of a number denote the number. -/
theorem ofAsciiDigits_toAsciiDigits (n : Nat) : ofAsciiDigits (toAsciiDigits n) = n := by
  rw [ofAsciiDigits_eq, toAsciiDigits, Nat.ofDigitChars_ten_toDigits]

/-- Zeros in front of digits do not count. -/
theorem ofAsciiDigits_replicate_append (k : Nat) (digits : List Char) :
    ofAsciiDigits (List.replicate k '0' ++ digits) = ofAsciiDigits digits := by
  rw [ofAsciiDigits_eq, Nat.ofDigitChars_append, Nat.ofDigitChars_replicate_zero, Nat.mul_zero,
    ofAsciiDigits_eq]

/-- A zero behind digits multiplies the number by ten. -/
theorem ofAsciiDigits_append_zero (digits : List Char) :
    ofAsciiDigits (digits ++ ['0']) = ofAsciiDigits digits * 10 := by
  rw [ofAsciiDigits, List.foldl_append, ← ofAsciiDigits]
  simp only [List.foldl_cons, List.foldl_nil, asciiDigitValue]
  omega

/-- Ten times a number has one more digit, a zero. -/
theorem toAsciiDigits_mul_ten {n : Nat} (h : 0 < n) :
    toAsciiDigits (n * 10) = toAsciiDigits n ++ ['0'] := by
  have hdigits := Nat.toDigits_append_toDigits (b := 10) (d := 0) (by decide) h (by decide)
  rw [Nat.add_zero, Nat.mul_comm] at hdigits
  exact hdigits.symm

/-- A number has digits. -/
theorem toAsciiDigits_ne_nil (n : Nat) : toAsciiDigits n ≠ [] := Nat.toDigits_ne_nil

/-- The digits of a number are ASCII digits. -/
theorem isAsciiDigit_of_mem_toAsciiDigits {n : Nat} {c : Char} (h : c ∈ toAsciiDigits n) :
    isAsciiDigit c = true := by
  have hdigit := Nat.isDigit_of_mem_toDigits (by decide) (by decide) h
  simp only [Char.isDigit, Bool.and_eq_true, decide_eq_true_eq, ge_iff_le,
    UInt32.le_iff_toNat_le] at hdigit
  exact isAsciiDigit_iff.mpr hdigit

private theorem foldl_digits_lt {digits : List Char} (h : ∀ c ∈ digits, isAsciiDigit c = true)
    (n : Nat) :
    digits.foldl (fun n c ↦ 10 * n + asciiDigitValue c) n <
      (n + 1) * Nat.pow 10 digits.length := by
  induction digits generalizing n with
  | nil => simp
  | cons c digits ih =>
    have hc := isAsciiDigit_iff.mp (h c List.mem_cons_self)
    have hvalue : asciiDigitValue c ≤ 9 := by
      have hzero : '0'.toNat = 0x30 := rfl
      rw [asciiDigitValue, hzero]
      omega
    have hrest := ih (fun d hd ↦ h d (List.mem_cons_of_mem c hd)) (10 * n + asciiDigitValue c)
    calc (c :: digits).foldl (fun n c ↦ 10 * n + asciiDigitValue c) n
        < (10 * n + asciiDigitValue c + 1) * Nat.pow 10 digits.length := hrest
      _ ≤ (10 * (n + 1)) * Nat.pow 10 digits.length := Nat.mul_le_mul_right _ (by omega)
      _ = (n + 1) * (Nat.pow 10 digits.length * 10) := by
        rw [Nat.mul_comm 10 (n + 1), Nat.mul_assoc, Nat.mul_comm 10]

private theorem ofAsciiDigits_lt {digits : List Char} (h : ∀ c ∈ digits, isAsciiDigit c = true) :
    ofAsciiDigits digits < Nat.pow 10 digits.length := by
  simpa [ofAsciiDigits] using foldl_digits_lt h 0

/-- A number read from digits has no more digits than it was read from. -/
theorem length_toAsciiDigits_ofAsciiDigits_le {digits : List Char} (hne : digits ≠ [])
    (h : ∀ c ∈ digits, isAsciiDigit c = true) :
    (toAsciiDigits (ofAsciiDigits digits)).length ≤ digits.length := by
  rw [toAsciiDigits, Nat.length_toDigits_le_iff (by decide) (List.length_pos_iff.mpr hne)]
  exact ofAsciiDigits_lt h

namespace Literal

/-- A text consists of digits exactly when it is not empty and every character is one. -/
theorem isDigits_iff {t : Text} : isDigits t = true ↔ t ≠ [] ∧ ∀ c ∈ t, isAsciiDigit c = true := by
  simp [isDigits]

/-- A run of digits starts with one. -/
theorem exists_cons_of_isDigits {t : Text} (h : isDigits t = true) :
    ∃ c rest, t = c :: rest ∧ isAsciiDigit c = true := by
  obtain ⟨hne, hall⟩ := isDigits_iff.mp h
  obtain ⟨c, rest, rfl⟩ := List.exists_cons_of_ne_nil hne
  exact ⟨c, rest, rfl, hall c List.mem_cons_self⟩

/-- The digits of a number are a run of digits. -/
theorem isDigits_toAsciiDigits (n : Nat) : isDigits (toAsciiDigits n) = true :=
  isDigits_iff.mpr ⟨toAsciiDigits_ne_nil n, fun _ h ↦ isAsciiDigit_of_mem_toAsciiDigits h⟩

/-- A text that starts with a digit has no minus sign. -/
theorem takeMinus_of_digit {c : Char} (h : isAsciiDigit c = true) (t : Text) :
    takeMinus (c :: t) = (false, c :: t) := by
  rw [takeMinus]
  rintro s hs
  rw [List.cons.injEq] at hs
  obtain ⟨rfl, -⟩ := hs
  revert h
  decide

end Literal

end Lilac
