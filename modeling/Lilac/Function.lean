import Lilac.Case

/-!
# Functions

A function is a header and the cases it governs. It is printed with its cases between braces on
lines of their own.

Specification: `SPEC_FULL.md`, section 3.
-/

namespace Lilac

/-- A header with its cases. Follows `Function`. -/
structure Function where
  header : Header
  cases : List Case
  deriving DecidableEq, Repr

namespace Function

/-- The indentation of printed cases. -/
def standardIndent : Text := [' ', ' ', ' ', ' ']

/-- The lines of a printed function: the header, an opening brace, the indented cases and a closing
brace. -/
def lines? (indent : Text) (f : Function) : Option (List Text) := do
  let cases ← f.cases.mapM fun c ↦ (c.print? f.header.name).map (indent ++ ·)
  some (f.header.print :: ['{'] :: cases ++ [['}']])

/-- The source text of a function, which ends with a line feed. Follows `format_function`. -/
def print? (indent : Text) (f : Function) : Option Text := do
  let lines ← f.lines? indent
  some (Text.join ['\n'] lines ++ ['\n'])

/-- The source text of several functions, with an empty line between neighbours. -/
def printAll? (indent : Text) (fs : List Function) : Option Text := do
  let texts ← fs.mapM (print? indent)
  some (Text.join ['\n'] texts)

end Function

end Lilac
