import Lilac.Path
import Lilac.Text.Quoted
import Lilac.Text.Utf8

/-!
# File trees

A file tree is a list of entries by location: directories, and files with their bytes. Every
directory on the way to an entry is an entry itself; the root is a directory without an entry. Paths
are followed part by part, so that two dots after something that is no directory lead nowhere. Names
and paths have a greatest length, and asking for more is a failure of its own: whether such a path
leads anywhere is not answered by no.

Links, permissions and special files are left out. So a location is the only way to what is there,
everything that is there can be looked into or read, and a result about all trees is one about trees
of plain directories and files.
-/

namespace Lilac

/-- Something in a file tree. -/
inductive Entry where
  | directory
  | file (bytes : List UInt8)
  deriving DecidableEq, Repr

/-- What there is at which location. -/
structure FileTree where
  entries : List (Location × Entry)
  deriving DecidableEq, Repr

/-- Why a file cannot be reached or read. -/
inductive FileCause where
  | notFound
  | notDirectory
  | isDirectory
  | nameTooLong
  | alreadyThere
  | invalidArgument
  | notEmpty
  deriving DecidableEq, Repr

/-- The words for a cause. -/
def FileCause.message : FileCause → String
  | .notFound => "[Errno 2] No such file or directory"
  | .notDirectory => "[Errno 20] Not a directory"
  | .isDirectory => "[Errno 21] Is a directory"
  | .nameTooLong => "[Errno 36] File name too long"
  | .alreadyThere => "[Errno 17] File exists"
  | .invalidArgument => "[Errno 22] Invalid argument"
  | .notEmpty => "[Errno 39] Directory not empty"

/-- A failure to reach or read the file at a path. -/
structure FileFault where
  cause : FileCause
  path : Path
  deriving DecidableEq, Repr

/-- The words for a failure, with the path it is about. -/
def FileFault.message (f : FileFault) : String :=
  f.cause.message ++ ": " ++ String.ofList f.path.text.quoted

/-- Why the text of a file cannot be had. -/
inductive ReadFault where
  /-- The file cannot be reached or read. -/
  | file (fault : FileFault)
  /-- The file is no UTF-8 text. -/
  | encoding (fault : Utf8.Fault)
  deriving DecidableEq, Repr

/-- The words for why a text cannot be had. -/
def ReadFault.message : ReadFault → String
  | .file fault => fault.message
  | .encoding fault => fault.message

namespace FileTree

/-- The tree with nothing but its root. -/
def empty : FileTree := ⟨[]⟩

/-- What there is at a location. -/
def entry? (tree : FileTree) (l : Location) : Option Entry :=
  if l = [] then some .directory else tree.entries.lookup l

/-- The tree without its files. -/
def directories (tree : FileTree) : FileTree := ⟨tree.entries.filter (·.2 = .directory)⟩

/-- The greatest number of bytes in a name. -/
def nameLimit : Nat := 255

/-- The greatest number of bytes in a path. -/
def pathLimit : Nat := 4095

/-- What there is at a location that a path has led to. A working directory that has been taken away
is still a directory, with nothing in it. -/
def entryAt (tree : FileTree) (l : Location) : Entry := (tree.entry? l).getD .directory

/-- Follows parts from a location, directory by directory. -/
def walk (tree : FileTree) : Location → List Text → Except FileCause Location
  | l, [] => .ok l
  | l, part :: rest =>
    match tree.entryAt l with
    | .file _ => .error .notDirectory
    | .directory =>
      if part = Path.up then tree.walk l.dropLast rest
      else if tree.entry? l = none then .error .notFound
      else if nameLimit < part.byteLength then .error .nameTooLong
      else if (tree.entry? (l ++ [part])).isSome then tree.walk (l ++ [part]) rest
      else .error .notFound

/-- The location that a path leads to in a working directory. -/
def locate (tree : FileTree) (here : Location) (p : Path) : Except FileCause Location :=
  if pathLimit < p.text.byteLength then .error .nameTooLong
  else tree.walk (p.start here) p.parts

/-- What a path leads to in a working directory, if anything. -/
def lookup (tree : FileTree) (here : Location) (p : Path) : Except FileFault (Option Entry) :=
  if p.hasNull then .ok none
  else
    match tree.locate here p with
    | .ok l => .ok (some (tree.entryAt l))
    | .error .nameTooLong => .error ⟨.nameTooLong, p⟩
    | .error _ => .ok none

/-- Whether a path leads to anything. -/
def has (tree : FileTree) (here : Location) (p : Path) : Except FileFault Bool :=
  (tree.lookup here p).map Option.isSome

/-- Whether a path leads to a file. -/
def isFile (tree : FileTree) (here : Location) (p : Path) : Except FileFault Bool :=
  (tree.lookup here p).map fun
    | some (.file _) => true
    | _ => false

/-- Whether a path leads to a directory. -/
def isDirectory (tree : FileTree) (here : Location) (p : Path) : Except FileFault Bool :=
  (tree.lookup here p).map fun e ↦ e = some .directory

/-- The bytes of the file that a path leads to. -/
def readBytes (tree : FileTree) (here : Location) (p : Path) : Except FileFault (List UInt8) :=
  match tree.locate here p with
  | .error cause => .error ⟨cause, p⟩
  | .ok l =>
    match tree.entryAt l with
    | .file bytes => .ok bytes
    | .directory => .error ⟨.isDirectory, p⟩

/-- The text of the file that a path leads to, with all line endings as line feeds. -/
def readText (tree : FileTree) (here : Location) (p : Path) : Except ReadFault Text :=
  match tree.readBytes here p with
  | .error fault => .error (.file fault)
  | .ok bytes =>
    match Utf8.decode bytes with
    | .error fault => .error (.encoding fault)
    | .ok t => .ok t.unifyNewlines

/-- The tree with another entry at a location. -/
def set (tree : FileTree) (l : Location) (e : Entry) : FileTree :=
  ⟨(l, e) :: tree.entries.filter (·.1 ≠ l)⟩

/-- The tree with directories added on the way from one location down to another. -/
def addDirectories (tree : FileTree) (l : Location) : List Text → FileTree
  | [] => tree
  | part :: rest =>
    let next := l ++ [part]
    let tree := if (tree.entry? next).isSome then tree else tree.set next .directory
    tree.addDirectories next rest

/-- The tree with a directory at a location and on the way to it. -/
def makeDirectory (tree : FileTree) (l : Location) : FileTree := tree.addDirectories [] l

/-- The tree with a file at a location and directories on the way to it. -/
def writeFile (tree : FileTree) (l : Location) (bytes : List UInt8) : FileTree :=
  (tree.makeDirectory l.dropLast).set l (.file bytes)

/-- The tree without anything below a location. -/
def removeBelow (tree : FileTree) (l : Location) : FileTree :=
  ⟨tree.entries.filter fun e ↦ !(l.isPrefixOf e.1 && l.length < e.1.length)⟩

/-- The tree without a location and everything below it. -/
def remove (tree : FileTree) (l : Location) : FileTree :=
  ⟨tree.entries.filter fun e ↦ !l.isPrefixOf e.1⟩

end FileTree

end Lilac
