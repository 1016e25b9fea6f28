/-!
# Character classes as tables of ranges

A class of characters is an ascending list of disjoint ranges of code points. Membership stops at
the first range that starts beyond the character, so characters of the first ranges are decided
after a few comparisons.
-/

namespace Lilac

/-- An ascending list of disjoint, closed ranges of code points. -/
abbrev CharClass := List (Nat × Nat)

namespace CharClass

/-- Whether code point `n` lies in one of the ranges. -/
def hasCode (n : Nat) : CharClass → Bool
  | [] => false
  | (low, high) :: rest => if n < low then false else n ≤ high || hasCode n rest

/-- Whether a character belongs to the class. -/
def has (ranges : CharClass) (c : Char) : Bool := hasCode c.toNat ranges

end CharClass

end Lilac
