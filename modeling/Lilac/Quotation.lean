import Lilac.Text.Basic

/-!
# String quotation

A string literal runs from a double quote to the next double quote that no backslash escapes. All
scanners of the language look only at the characters outside string literals, the two quotes
included; these are the *visible* characters. A reader walks a text with a `Mode`, and everything
in this module is one pass over the text with that mode.

Specification: `SPEC_FULL.md`, section 4.2.
-/

namespace Lilac

/-- Where a reader stands with respect to string literals. -/
inductive Mode where
  /-- Outside every string literal. -/
  | outside
  /-- Inside a string literal. -/
  | inside
  /-- Inside a string literal, just after a backslash. -/
  | escaped
  deriving DecidableEq, Repr

namespace Mode

/-- The mode after reading a character. -/
def next : Mode → Char → Mode
  | .outside, c => if c = '"' then .inside else .outside
  | .inside, c => if c = '"' then .outside else if c = '\\' then .escaped else .inside
  | .escaped, _ => .inside

/-- Whether a character read in this mode is visible: it stands outside string literals, or it is
the quote that ends one. -/
def shows : Mode → Char → Bool
  | .outside, _ => true
  | .inside, c => c = '"'
  | .escaped, _ => false

/-- The mode after reading a whole text. -/
def after (mode : Mode) (t : Text) : Mode := t.foldl next mode

end Mode

namespace Text

/-- The visible characters of a text with their positions, for a reader that starts in the given
mode at the given position. -/
def visibleFrom (mode : Mode) (position : Nat) : Text → List (Nat × Char)
  | [] => []
  | c :: t =>
    let rest := visibleFrom (mode.next c) (position + 1) t
    if mode.shows c then (position, c) :: rest else rest

/-- The visible characters of a text with their positions. Follows `_unquoted`. -/
def visible (t : Text) : List (Nat × Char) := visibleFrom .outside 0 t

/-- The position of the first semicolon outside string literals. Follows `_find_terminator`. -/
def terminator? (t : Text) : Option Nat :=
  (t.visible.find? fun (_, c) ↦ c = ';').map (·.1)

/-- The change a character makes to the number of open parentheses. -/
def parenthesisStep : Char → Int
  | '(' => 1
  | ')' => -1
  | _ => 0

/-- The greatest number of open parentheses after any prefix of some characters, when `depth` are
open before them, and `deepest` when none exceeds it. Closing parentheses without a partner count
negatively. -/
def deepestFrom (depth deepest : Int) : List Char → Int
  | [] => deepest
  | c :: t =>
    let depth := depth + parenthesisStep c
    deepestFrom depth (max deepest depth) t

/-- How deeply parentheses nest outside string literals. Follows `_nesting_depth`. -/
def nesting (t : Text) : Nat := (deepestFrom 0 0 (t.visible.map (·.2))).toNat

/-- The pieces between the visible commas at parenthesis depth zero, for a reader in the given mode
with `depth` parentheses open. -/
def argumentPiecesFrom (mode : Mode) (depth : Int) : Text → List Text
  | [] => [[]]
  | c :: t =>
    if mode.shows c then
      if c = ',' ∧ depth = 0 then [] :: argumentPiecesFrom (mode.next c) depth t
      else consHead c (argumentPiecesFrom (mode.next c) (depth + parenthesisStep c) t)
    else consHead c (argumentPiecesFrom (mode.next c) depth t)

/-- Drops the last piece if it is blank. -/
def dropBlankTail : List Text → List Text
  | [] => []
  | [last] => if trim last = [] then [] else [last]
  | piece :: rest => piece :: dropBlankTail rest

/-- The arguments of an argument list: its pieces between top-level commas, where a blank last piece
does not count. Follows `_split_arguments`. -/
def arguments (t : Text) : List Text := dropBlankTail (argumentPiecesFrom .outside 0 t)

/-- The text up to the first `//` outside string literals, for a reader in the given mode. -/
def uncommentedFrom : Mode → Text → Text
  | _, [] => []
  | .outside, '/' :: '/' :: _ => []
  | mode, c :: t => c :: uncommentedFrom (mode.next c) t

/-- The text without a trailing comment. A comment starts at the first `//` outside string literals.
Follows `_strip_comment`. -/
def uncommented (t : Text) : Text := uncommentedFrom .outside t

end Text

end Lilac
