import Lilac.Text.Basic
import Lilac.Text.Word

/-!
# Function headers

A header declares a function: the word `func`, a name, a list of input types, an arrow and a list of
output types. The elements of a list stand between commas with optional blanks around each comma.
Blanks are required after `func` and after the name, optional around the arrow, and allowed nowhere
else.

Specification: `SPEC_FULL.md`, section 4.3.
-/

namespace Lilac

namespace Text

/-- Whether a text is a name: one or more word characters. -/
def isName (t : Text) : Bool := !t.isEmpty && t.all isWord

/-- The trimmed pieces of a text between commas. Follows `_split_names`. -/
def commaPieces (t : Text) : List Text := (pieces ',' t).map trim

/-- Reads a list of names separated by commas, with optional blanks around each name. -/
def names? (t : Text) : Option (List Text) :=
  if t.commaPieces.all isName then some t.commaPieces else none

/-- Cuts a text at its first arrow. -/
def cutArrow? : Text → Option (Text × Text)
  | [] => none
  | '-' :: '>' :: t => some ([], t)
  | c :: t => (cutArrow? t).map fun (before, after) ↦ (c :: before, after)

/-- Whether a text starts with a blank. -/
def startsBlank (t : Text) : Bool := t.head?.any isBlank

/-- Whether a text ends with a blank. -/
def endsBlank (t : Text) : Bool := t.getLast?.any isBlank

end Text

/-- A function's declaration. Headers that are read have a name and at least one input and output;
headers made from plain data may lack all three. Follows `FunctionHeader`. -/
structure Header where
  name : Text
  inputs : List Text
  outputs : List Text
  deriving DecidableEq, Repr

namespace Header

/-- Reads what follows the word `func`. -/
def parseDeclaration? (t : Text) : Option Header := do
  let declared := t.trimLeft
  let name := declared.takeWhile isWord
  let lists := declared.dropWhile isWord
  let (before, after) ← Text.cutArrow? lists
  if t.startsBlank && !name.isEmpty && Text.startsBlank lists && !after.endsBlank then
    some ⟨name, ← before.names?, ← after.names?⟩
  else none

/-- Reads a header that makes up the whole text. Follows `parse_header`. -/
def parse? : Text → Option Header
  | 'f' :: 'u' :: 'n' :: 'c' :: t => parseDeclaration? t
  | _ => none

/-- The source text of a header. Follows `format_header`. -/
def print (h : Header) : Text :=
  ['f', 'u', 'n', 'c', ' '] ++ h.name ++ ' ' :: Text.join [',', ' '] h.inputs
    ++ [' ', '-', '>', ' '] ++ Text.join [',', ' '] h.outputs

end Header

end Lilac
