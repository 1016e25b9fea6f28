import Lilac.Diagnostic
import Lilac.Path

/-!
# Coloured lines

A problem is printed on a line of its own in the colour of its severity. The colour ends before
every line break and starts again after it, and it starts again wherever the text itself ends it. A
part of a line between two resets is kept out of the colour.

Specification: `SPEC_FULL.md`, on output.
-/

namespace Lilac

namespace Command

private def colorCode (n : Nat) : Text := '\x1b' :: '[' :: toAsciiDigits n ++ ['m']

private def colorOf : Severity → Nat
  | .error => 31
  | .warning => 33
  | .information => 34

private def colorEnd : Text := colorCode 39

private def reset : Text := colorCode 0

/-- The pieces of a text between the occurrences of a pattern, after the first `skipped` characters,
which belong to an occurrence found before. -/
def piecesFrom (pattern : Text) : Nat → Text → List Text
  | _, [] => [[]]
  | skipped + 1, _ :: t => piecesFrom pattern skipped t
  | 0, c :: t =>
    if pattern.isPrefixOf (c :: t) then [] :: piecesFrom pattern (pattern.length - 1) t
    else Text.consHead c (piecesFrom pattern 0 t)

/-- The pieces of a text between the occurrences of a pattern, which must not be empty. -/
private def piecesAround (pattern t : Text) : List Text := piecesFrom pattern 0 t

private def restarted (start stop t : Text) : Text :=
  Text.join (stop ++ start) (piecesAround stop t)

/-- Joins the pieces between resets, with the colour ended in front of the first of two resets and
started again after the second. -/
def joinResets (start stop : Text) : List Text → Text
  | [] => []
  | [piece] => piece
  | [piece, last] => piece ++ reset ++ last
  | piece :: inner :: rest =>
    piece ++ stop ++ reset ++ inner ++ reset ++ start ++ joinResets start stop rest

/-- Keeps the parts of a text between two resets on one line out of the colour. -/
private def aroundResets (start stop t : Text) : Text :=
  Text.join ['\n'] (t.lines.map fun line ↦ joinResets start stop (piecesAround reset line))

/-- Ends the colour before every line break and starts it again after it. -/
private def aroundBreaks (start stop : Text) : Text → Text
  | [] => []
  | '\r' :: '\n' :: t => stop ++ '\r' :: '\n' :: start ++ aroundBreaks start stop t
  | '\n' :: t => stop ++ '\n' :: start ++ aroundBreaks start stop t
  | c :: t => c :: aroundBreaks start stop t

/-- A text in a colour. -/
def colored (color : Nat) (t : Text) : Text :=
  let start := colorCode color
  let stop := colorEnd
  start ++ aroundBreaks start stop (aroundResets start stop (restarted start stop t)) ++ stop

/-- The line for a problem of the source at a path. -/
def diagnosticText (p : Path) (d : Diagnostic) : Text :=
  let place := match d.span with
    | some s => ':' :: integerText s.line ++ ':' :: integerText s.column
    | none => []
  p.text ++ place ++ (": " ++ d.severity.name ++ ": " ++ d.message).toList

/-- The coloured line for a problem of the source at a path. Follows `_format_diagnostic`. -/
def diagnosticLine (p : Path) (d : Diagnostic) : String :=
  String.ofList (colored (colorOf d.severity) (diagnosticText p d))

end Command

end Lilac
