import Lilac.Text.Blank

/-!
# Texts

A text is a list of characters, so that positions, cuts and lengths all count characters. This
module holds the operations every reader of the language shares: trimming blanks, cutting at a
separator and joining with one.
-/

namespace Lilac

/-- A piece of source text, character by character. -/
abbrev Text := List Char

namespace Text

/-- The text without its leading blanks. -/
def trimLeft (t : Text) : Text := t.dropWhile isBlank

/-- The text without its trailing blanks. -/
def trimRight (t : Text) : Text := (t.reverse.dropWhile isBlank).reverse

/-- The text without blanks at either end. -/
def trim (t : Text) : Text := trimRight (trimLeft t)

/-- Puts a character in front of the first of several pieces. -/
def consHead (c : Char) : List Text → List Text
  | [] => [[c]]
  | piece :: rest => (c :: piece) :: rest

/-- The pieces of a text between the occurrences of a separator; there is always one more piece
than there are separators. -/
def pieces (separator : Char) : Text → List Text
  | [] => [[]]
  | c :: t => if c = separator then [] :: pieces separator t else consHead c (pieces separator t)

/-- The texts one after the other, with a separator between neighbours. -/
def join (separator : Text) : List Text → Text
  | [] => []
  | [t] => t
  | t :: rest => t ++ separator ++ join separator rest

/-- The lines of a text: its pieces between line feeds. -/
def lines (t : Text) : List Text := pieces '\n' t

/-- A text is cut into at least one piece. -/
theorem pieces_ne_nil (separator : Char) (t : Text) : pieces separator t ≠ [] := by
  induction t with
  | nil => simp [pieces]
  | cons c t ih =>
    simp only [pieces]
    split
    · simp
    · cases h : pieces separator t <;> simp [consHead]

/-- Joining the pieces with the separator gives the text back. -/
theorem join_pieces (separator : Char) (t : Text) : join [separator] (pieces separator t) = t := by
  induction t with
  | nil => rfl
  | cons c t ih =>
    simp only [pieces]
    cases h : pieces separator t with
    | nil => exact absurd h (pieces_ne_nil separator t)
    | cons piece rest =>
      rw [h] at ih
      split
      · subst_vars
        simp [join]
      · cases rest <;> simp_all [consHead, join]

/-- Trimming on the left never lengthens a text. -/
theorem length_trimLeft_le (t : Text) : (trimLeft t).length ≤ t.length :=
  (List.dropWhile_sublist isBlank).length_le

/-- Trimming on the right never lengthens a text. -/
theorem length_trimRight_le (t : Text) : (trimRight t).length ≤ t.length := by
  simpa [trimRight] using (List.dropWhile_sublist (l := t.reverse) isBlank).length_le

/-- Trimming never lengthens a text. -/
theorem length_trim_le (t : Text) : (trim t).length ≤ t.length :=
  Nat.le_trans (length_trimRight_le _) (length_trimLeft_le t)

end Text

end Lilac
