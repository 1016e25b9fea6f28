import Lilac.Quotation

/-!
# Source lines

A source text is cut at line feeds. Each line loses its carriage returns, its comment and the blanks
around it, and is then classified by its shape alone: a brace, a header, a case or nothing. A header
with a brace at its end counts as two lines, the header and the brace.

Specification: `SPEC_FULL.md`, section 2.
-/

namespace Lilac

/-- A range of characters on one line. Lines and columns of scanned texts count from 1; positions
given by hand may be any integers. Follows `Span`. -/
structure Span where
  line : Int
  column : Int
  /-- The column after the last character. -/
  endColumn : Int
  deriving DecidableEq, Repr

/-- What a line is, judged by its shape. Follows `LineKind`. -/
inductive LineKind where
  | header
  | opening
  | closing
  | case
  | blank
  deriving DecidableEq, Repr

/-- A classified line: its text without comment and surrounding blanks, and where that text stands.
Follows `SourceLine`. -/
structure Line where
  kind : LineKind
  text : Text
  span : Span
  deriving DecidableEq, Repr

namespace Text

/-- The text without the carriage returns at its end. -/
def dropReturns (t : Text) : Text := (t.reverse.dropWhile (· = '\r')).reverse

/-- Whether a text is a header by its shape: the word `func` alone or followed by a blank. Follows
`_is_header`. -/
def looksLikeHeader : Text → Bool
  | ['f', 'u', 'n', 'c'] => true
  | 'f' :: 'u' :: 'n' :: 'c' :: c :: _ => isBlank c
  | _ => false

end Text

namespace Line

/-- A line with the given kind and text that starts at a column. -/
def starting (kind : LineKind) (text : Text) (number column : Nat) : Line :=
  ⟨kind, text, ⟨number, column, column + text.length⟩⟩

/-- Classifies the trimmed text of a line that starts at a column. -/
def classify (number column : Nat) (text : Text) : List Line :=
  if text = [] then [.starting .blank [] number 1]
  else if text = ['{'] then [.starting .opening text number column]
  else if text = ['}'] then [.starting .closing text number column]
  else if text.looksLikeHeader then
    if text.getLast? = some '{' then
      [.starting .header (Text.trimRight text.dropLast) number column,
        .starting .opening ['{'] number (column + text.length - 1)]
    else [.starting .header text number column]
  else [.starting .case text number column]

/-- The part of a physical line that is neither comment nor line ending. -/
def content (raw : Text) : Text := Text.uncommented raw.dropReturns

/-- The classified lines that one physical line gives. Follows `_scan_line`. -/
def ofPhysical (number : Nat) (raw : Text) : List Line :=
  let content := content raw
  classify number (content.length - content.trimLeft.length + 1) content.trim

/-- The classified lines of several physical lines, numbered from `number`. -/
def ofPhysicals (number : Nat) : List Text → List Line
  | [] => []
  | raw :: rest => ofPhysical number raw ++ ofPhysicals (number + 1) rest

/-- The classified lines of a source text. Follows `scan`. -/
def scan (source : Text) : List Line := ofPhysicals 1 source.lines

end Line

end Lilac
