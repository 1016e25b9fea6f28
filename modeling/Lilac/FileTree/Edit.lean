import Lilac.Crash

/-!
# Editing file trees

Directories and files are made, and things are taken away, by path. Making something makes the
directories on the way to it first, one after the other, and fails where a file stands in the way.
An edit gives the tree after it and, if it fails, why: what was done before the failure stays done.

The working directory may be taken away too. It then is a directory nothing leads to and nothing can
be put into, even if another one is made in its place; only the way up from it is left.
-/

namespace Lilac

/-- The tree and the working directory after an edit, and why the edit failed if it did. -/
structure Edited where
  tree : FileTree
  here : Location
  crash : Option Crash := none
  deriving DecidableEq, Repr

namespace Location

/-- The working directory after a location has been taken away. If it was there or below, it goes on
under a name with a null character, which is no name of anything in a tree. -/
def without (gone here : Location) : Location :=
  match gone.getLast? with
  | some name =>
    if gone.isPrefixOf here then gone.dropLast ++ ('\x00' :: name) :: here.drop gone.length
    else here
  | none => here

/-- The working directory after everything below a location has been taken away. -/
def withoutBelow (l here : Location) : Location :=
  if l.isPrefixOf here ∧ l.length < here.length then without (here.take (l.length + 1)) here
  else here

end Location

namespace FileTree

/-- The edit that fails at a path and changes nothing. -/
def refuse (tree : FileTree) (here : Location) (p : Path) (cause : FileCause) : Edited :=
  ⟨tree, here, some (.file ⟨cause, p⟩)⟩

/-- The location of a thing to be made, with a name of its own in a directory that is there. A path
that ends without a name leads to a directory, and `unnamed` says why nothing is made at it. -/
def target (tree : FileTree) (here : Location) (p : Path) (unnamed : FileCause) :
    Except FileCause Location :=
  if pathLimit < p.text.byteLength then .error .nameTooLong
  else do
    let l ← tree.locate here p.parent
    match p.parts.getLast?, tree.entryAt l with
    | none, _ => .error unnamed
    | some _, .file _ => .error .notDirectory
    | some name, .directory =>
      if name = Path.up then .error unnamed
      else if tree.entry? l = none then .error .notFound
      else if nameLimit < name.byteLength then .error .nameTooLong
      else .ok (l ++ [name])

/-- Makes a directory in a directory that is there. -/
def makeHere (tree : FileTree) (here : Location) (p : Path) : Except FileCause FileTree := do
  let l ← tree.target here p .alreadyThere
  if (tree.entry? l).isSome then .error .alreadyThere else .ok (tree.set l .directory)

/-- Makes a directory in a directory that is there, unless it is there already. -/
def makeIfAbsent (tree : FileTree) (here : Location) (p : Path) : Edited :=
  match tree.makeHere here p, tree.isDirectory here p with
  | .ok tree, _ => ⟨tree, here, none⟩
  | .error _, .ok true => ⟨tree, here, none⟩
  | .error cause, _ => tree.refuse here p cause

/-- Makes a directory and those on the way to it, given the parts of its path from the last to the
first. -/
def makeAlong (tree : FileTree) (here : Location) (anchor : Anchor) : List Text → Edited
  | [] => tree.makeIfAbsent here ⟨anchor, []⟩
  | name :: outer =>
    let p : Path := ⟨anchor, (name :: outer).reverse⟩
    match tree.makeHere here p with
    | .error .notFound =>
      match tree.makeAlong here anchor outer with
      | ⟨tree, here, none⟩ => tree.makeIfAbsent here p
      | failed => failed
    | _ => tree.makeIfAbsent here p

/-- Makes a directory where a path leads, and those on the way to it. -/
def makeDirectoryAt (tree : FileTree) (here : Location) (p : Path) : Edited :=
  if p.hasNull then ⟨tree, here, some .nullCharacter⟩
  else tree.makeAlong here p.anchor p.parts.reverse

/-- Puts a file into a directory that is there. -/
def putFile (tree : FileTree) (here : Location) (p : Path) (bytes : List UInt8) : Edited :=
  if p.hasNull then ⟨tree, here, some .nullCharacter⟩
  else
    match tree.target here p .isDirectory with
    | .error cause => tree.refuse here p cause
    | .ok l =>
      if tree.entry? l = some .directory then tree.refuse here p .isDirectory
      else ⟨tree.set l (.file bytes), here, none⟩

/-- Puts a file where a path leads, and makes the directories on the way to it. -/
def writeFileAt (tree : FileTree) (here : Location) (p : Path) (bytes : List UInt8) : Edited :=
  match tree.makeDirectoryAt here p.parent with
  | ⟨tree, here, none⟩ => tree.putFile here p bytes
  | failed => failed

/-- Why a directory that has been emptied cannot be taken away by a path: the way to it was in it,
or the path does not end with its name. -/
def keptCause? (tree : FileTree) (here : Location) (p : Path) : Option FileCause :=
  match tree.locate here p.parent, p.parts.getLast? with
  | .error cause, _ => some cause
  | .ok _, none => some .invalidArgument
  | .ok _, some name => if name = Path.up then some .notEmpty else none

/-- Empties a directory and takes it away. -/
def removeDirectory (tree : FileTree) (here : Location) (p : Path) (l : Location) : Edited :=
  let emptied := tree.removeBelow l
  let here := l.withoutBelow here
  match emptied.keptCause? here p with
  | some cause => emptied.refuse here p cause
  | none => ⟨emptied.remove l, l.without here, none⟩

/-- Takes away what a path leads to, with everything below it. -/
def removeAt (tree : FileTree) (here : Location) (p : Path) : Edited :=
  if p.hasNull then ⟨tree, here, some .nullCharacter⟩
  else
    match tree.locate here p with
    | .error cause => tree.refuse here p cause
    | .ok l =>
      match tree.entryAt l with
      | .directory => tree.removeDirectory here p l
      | .file _ => ⟨tree.remove l, here, none⟩

/-- The location of the directory that a path leads to. -/
def enter (tree : FileTree) (here : Location) (p : Path) : Except Crash Location :=
  if p.hasNull then .error .nullCharacter
  else
    match tree.locate here p with
    | .error cause => .error (.file ⟨cause, p⟩)
    | .ok l =>
      match tree.entryAt l with
      | .directory => .ok l
      | .file _ => .error (.file ⟨.notDirectory, p⟩)

end FileTree

end Lilac
