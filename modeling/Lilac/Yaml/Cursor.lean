import Lilac.Text.Basic

/-!
# A position in a YAML text

A cursor holds what is left of the text and where it stands. It moves over line breaks of five
kinds, a carriage return and a line feed together counting as one.
-/

namespace Lilac

namespace Yaml

/-- What is left of a text, with the position of its first character. -/
structure Cursor where
  rest : Text
  index : Nat
  line : Nat
  column : Nat
  deriving DecidableEq, Repr

private def isBreak (c : Char) : Bool :=
  c = '\n' || c = '\r' || c = '\u0085' || c = '\u2028' || c = '\u2029'

/-- Whether a character is a space, a tab or a line break. -/
def isSeparator (c : Char) : Bool := c = ' ' || c = '\t' || isBreak c

/-- Whether a text is at its end or starts with a space, a tab or a line break. -/
def endsToken (t : Text) : Bool := t.head?.all isSeparator

/-- Whether a text starts with a document marker: three equal marks that end a token. -/
def startsMarker (mark : Char) : Text → Bool
  | a :: b :: c :: t => a = mark && b = mark && c = mark && endsToken t
  | _ => false

/-- Whether a text starts with either document marker. -/
def startsAnyMarker (t : Text) : Bool := startsMarker '-' t || startsMarker '.' t

namespace Cursor

/-- The start of a text. -/
def start (t : Text) : Cursor := ⟨t, 0, 0, 0⟩

/-- Moves over one character. -/
def next (c : Cursor) : Cursor :=
  match c.rest with
  | [] => c
  | x :: t =>
    if isBreak x && !(x = '\r' && t.head? = some '\n') then ⟨t, c.index + 1, c.line + 1, 0⟩
    else ⟨t, c.index + 1, c.line, if x = '\ufeff' then c.column else c.column + 1⟩

/-- Moves over several characters. -/
def skip : Nat → Cursor → Cursor
  | 0, c => c
  | n + 1, c => skip n c.next

/-- Moves to a later position, given what is left there. -/
def moveTo (rest : Text) (c : Cursor) : Cursor := c.skip (c.rest.length - rest.length)

private def skipWhile (test : Char → Bool) (c : Cursor) : Cursor :=
  c.skip (c.rest.takeWhile test).length

end Cursor

/-- Takes a line break off a text, if there is one: the break as it is kept, and what is left. -/
def takeBreak? : Text → Option (Char × Text)
  | '\r' :: '\n' :: t => some ('\n', t)
  | c :: t =>
    if isBreak c then some (if c = '\u2028' || c = '\u2029' then c else '\n', t) else none
  | [] => none

/-- Moves to the next token over blanks, comments and line breaks; also tells whether a line break
was passed. The first argument bounds the number of lines. -/
def toToken : Nat → Cursor → Cursor × Bool
  | 0, c => (c, false)
  | n + 1, c =>
    let c := c.skipWhile (· = ' ')
    let c := if c.rest.head? = some '#' then c.skipWhile (!isBreak ·) else c
    match takeBreak? c.rest with
    | some (_, rest) => ((toToken n (c.moveTo rest)).1, true)
    | none => (c, false)

end Yaml

end Lilac
