import Lilac.Text.CharClass

/-!
# Blank characters

The characters that separate words and are trimmed from the ends of a text: the Unicode white
space characters and the four information separators. The zero-width space, the byte-order mark
and the Mongolian vowel separator are not among them.
-/

namespace Lilac

/-- Code points of the blank characters. -/
def blankRanges : CharClass :=
  [(0x9, 0xd), (0x1c, 0x20), (0x85, 0x85), (0xa0, 0xa0), (0x1680, 0x1680), (0x2000, 0x200a),
   (0x2028, 0x2029), (0x202f, 0x202f), (0x205f, 0x205f), (0x3000, 0x3000)]

/-- Whether a character is blank. -/
def isBlank (c : Char) : Bool := blankRanges.has c

end Lilac
