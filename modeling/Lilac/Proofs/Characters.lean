import Lilac.Text.Blank
import Lilac.Text.Digit
import Lilac.Text.Word

/-!
# Word characters against the other classes

A word character is neither blank nor punctuation, and every ASCII digit is a word character. The
tables of ranges are compared once; later modules use only the statements of this one.
-/

namespace Lilac

namespace CharClass

/-- All code points of a class, range by range. -/
def codes (ranges : CharClass) : List Nat :=
  ranges.flatMap fun (low, high) ↦ List.range' low (high + 1 - low)

private theorem mem_codes_of_hasCode {n : Nat} {ranges : CharClass} (h : hasCode n ranges = true) :
    n ∈ codes ranges := by
  induction ranges with
  | nil => simp [hasCode] at h
  | cons range rest ih =>
    obtain ⟨low, high⟩ := range
    simp only [codes, List.flatMap_cons, List.mem_append, List.mem_range'_1]
    simp only [hasCode] at h
    split at h
    · cases h
    · next hlow =>
      rcases Bool.or_eq_true _ _ |>.mp h with hhigh | hrest
      · left
        have := of_decide_eq_true hhigh
        omega
      · right
        exact ih hrest

end CharClass

private theorem blank_codes_not_word :
    ∀ n ∈ blankRanges.codes, wordRanges.hasCode n = false := by
  decide +kernel

/-- No word character is blank. -/
theorem not_isBlank_of_isWord {c : Char} (h : isWord c = true) : isBlank c = false := by
  cases hb : isBlank c with
  | false => rfl
  | true =>
    have hw := blank_codes_not_word c.toNat (CharClass.mem_codes_of_hasCode hb)
    rw [isWord, CharClass.has, hw] at h
    cases h

/-- A word character differs from every character that is none. -/
theorem ne_of_isWord {c d : Char} (h : isWord c = true) (hd : isWord d = false) : c ≠ d := by
  rintro rfl
  rw [h] at hd
  cases hd

/-- An ASCII digit has a code point between those of `0` and `9`. -/
theorem isAsciiDigit_iff {c : Char} : isAsciiDigit c = true ↔ 0x30 ≤ c.toNat ∧ c.toNat ≤ 0x39 := by
  simp only [isAsciiDigit, Bool.and_eq_true, decide_eq_true_eq, Char.le_def, UInt32.le_iff_toNat_le]
  rfl

private theorem digit_codes_word :
    ∀ n ∈ List.range' 0x30 10, wordRanges.hasCode n = true := by
  decide

/-- Every ASCII digit is a word character. -/
theorem isWord_of_isAsciiDigit {c : Char} (h : isAsciiDigit c = true) : isWord c = true := by
  apply digit_codes_word
  rw [isAsciiDigit_iff] at h
  rw [List.mem_range'_1]
  omega

end Lilac
