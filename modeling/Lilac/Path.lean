import Lilac.Text.Basic

/-!
# Paths

A path is an anchor and a list of parts. Writing a path down and reading it again drops single dots,
doubled and trailing slashes and keeps everything else; in particular two dots stay, since only the
file tree can say what they lead to. Paths are ordered by their parts, and parts by their
characters.
-/

namespace Lilac

/-- Where a path starts. -/
inductive Anchor where
  /-- At the working directory. -/
  | here
  /-- At the root. -/
  | root
  /-- At the root, written with exactly two slashes. -/
  | doubleRoot
  deriving DecidableEq, Repr

/-- An absolute location: the names from the root down. -/
abbrev Location := List Text

/-- A path as it is written. -/
structure Path where
  anchor : Anchor
  parts : List Text
  deriving DecidableEq, Repr

namespace Path

/-- The part that leads to the parent directory. -/
def up : Text := ['.', '.']

/-- The parts of a path as they are written. -/
def partsOf (t : Text) : List Text :=
  (Text.pieces '/' t).filter fun part ↦ part ≠ [] ∧ part ≠ ['.']

/-- Reads a path. -/
def ofText (t : Text) : Path :=
  match t with
  | '/' :: '/' :: '/' :: _ => ⟨.root, partsOf t⟩
  | '/' :: '/' :: _ => ⟨.doubleRoot, partsOf t⟩
  | '/' :: _ => ⟨.root, partsOf t⟩
  | _ => ⟨.here, partsOf t⟩

/-- Writes a path; the empty relative path is a dot. -/
def text (p : Path) : Text :=
  let parts := Text.join ['/'] p.parts
  match p.anchor with
  | .here => if p.parts = [] then ['.'] else parts
  | .root => '/' :: parts
  | .doubleRoot => '/' :: '/' :: parts

/-- Whether a null character stands in a path. Nothing can be at such a path. -/
def hasNull (p : Path) : Bool := p.parts.any (·.contains '\x00')

/-- The path of a location. -/
def ofLocation (l : Location) : Path := ⟨.root, l⟩

/-- The path below another path; an absolute path stands for itself. -/
def join (p q : Path) : Path :=
  match q.anchor with
  | .here => ⟨p.anchor, p.parts ++ q.parts⟩
  | _ => q

/-- The path without its last part. -/
def parent (p : Path) : Path := ⟨p.anchor, p.parts.dropLast⟩

/-- Follows parts from a location without looking at any file tree: two dots take the last name
away, and have no effect at the root. -/
def follow (l : Location) (parts : List Text) : Location :=
  parts.foldl (fun l part ↦ if part = up then l.dropLast else l ++ [part]) l

/-- The location at which a path starts in a working directory. -/
def start (here : Location) (p : Path) : Location :=
  match p.anchor with
  | .here => here
  | _ => []

/-- The location a path stands for in a working directory, whether it exists or not. -/
def resolve (here : Location) (p : Path) : Location := follow (p.start here) p.parts

/-- The path of something relative to a directory above it. -/
def relativeTo (directory p : Path) : Path :=
  if p.anchor = directory.anchor ∧ directory.parts.isPrefixOf p.parts then
    ⟨.here, p.parts.drop directory.parts.length⟩
  else p

end Path

/-- Whether a text comes before or at another in the order of code points. -/
def Text.notAfter : Text → Text → Bool
  | [], _ => true
  | _ :: _, [] => false
  | a :: s, b :: t => a < b || (a = b && notAfter s t)

/-- Whether a list of parts comes before or at another, part by part. -/
def Location.notAfter : List Text → List Text → Bool
  | [], _ => true
  | _ :: _, [] => false
  | a :: s, b :: t => if a = b then notAfter s t else Text.notAfter a b

end Lilac
