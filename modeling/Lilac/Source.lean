import Lilac.Check
import Lilac.Settings

/-!
# Sources

The sources below a directory are all entries whose name ends in `.lilac`, sorted by path, except
those below an excluded directory. A source is reported on by its problems, or by why it cannot be
read; both the command line and the page show these reports.

Specification: `SPEC_FULL.md`, on configuration.
-/

namespace Lilac

namespace Source

/-- The ending of the names of sources. -/
def suffix : Text := ".lilac".toList

/-- Whether a relative path, given by its parts, names a source. -/
def isNamed (parts : List Text) : Bool := parts.getLast?.any (suffix.isSuffixOf ·)

/-- Whether a location lies below one of several directories. -/
def isBelowAny (directories : List Location) (l : Location) : Bool :=
  directories.any fun d ↦ d.isPrefixOf l && d.length < l.length

/-- The directories that exclusions stand for under a directory. -/
def excludedBelow (tree : FileTree) (here : Location) (directory : Path) (exclude : List Text) :
    Except Crash (List Location) :=
  exclude.mapM fun name ↦ tree.resolve here (directory.join (.ofText name))

/-- Everything below a location, by the parts that lead to it. -/
def below (tree : FileTree) (l : Location) : List (List Text) :=
  tree.entries.filterMap fun (m, _) ↦
    if l.isPrefixOf m && l.length < m.length then some (m.drop l.length) else none

/-- The sources below a directory, by the parts that lead to them, in order. -/
def namedBelow (tree : FileTree) (l : Location) : List (List Text) :=
  ((below tree l).filter isNamed).mergeSort Location.notAfter

/-- All sources below the directory that a path leads to. -/
def allBelow (tree : FileTree) (here : Location) (p : Path) : List Path :=
  match tree.locate here p with
  | .error _ => []
  | .ok l => (namedBelow tree l).map fun parts ↦ ⟨p.anchor, p.parts ++ parts⟩

/-- The sources below a path that are not below an excluded directory. -/
def keptBelow (tree : FileTree) (here : Location) (p : Path) (excluded : List Location) :
    Except Crash (List Path) :=
  let found := allBelow tree here p
  if found = [] ∨ excluded = [] then .ok found
  else do
    let _ ← tree.resolve here p
    .ok (found.filter fun q ↦ !isBelowAny excluded (q.resolve here))

/-- Why a directory below a path, given by the parts that lead there, cannot be looked into: it is
more than `depth` directories down, or its own path is too long. -/
def obstacleAt? (depth : Nat) (p : Path) (parts : List Text) : Option Crash :=
  let q : Path := ⟨p.anchor, p.parts ++ parts⟩
  if depth < parts.length then some .tooDeep
  else if FileTree.pathLimit < q.text.byteLength then some (.file ⟨.nameTooLong, q⟩)
  else none

/-- Why a search does not get to its end: one of the directories below a path cannot be looked into,
and the directory that it is in can. -/
def obstacle? (depth : Nat) (tree : FileTree) (here : Location) (p : Path) : Option Crash :=
  match tree.locate here p with
  | .error _ => none
  | .ok l =>
    (below tree.directories l).findSome? fun parts ↦
      if (obstacleAt? depth p parts.dropLast).isNone then obstacleAt? depth p parts else none

/-- Looks into all directories below a path for sources that are not below an excluded one. A search
goes down at most `depth` directories. -/
def search (depth : Nat) (tree : FileTree) (here : Location) (p : Path)
    (excluded : List Location) : Except Crash (List Path) :=
  match obstacle? depth tree here p with
  | some cause => .error cause
  | none => keptBelow tree here p excluded

/-- The sources that a path stands for: the file it leads to, or those below the directory it leads
to, without those below an excluded directory. Follows `find_sources`. -/
def find (depth : Nat) (tree : FileTree) (here : Location) (exclude : List Text) (p : Path) :
    Except Crash (List Path) :=
  match tree.isFile here p with
  | .error fault => .error (.file fault)
  | .ok true => .ok [p]
  | .ok false => do search depth tree here p (← excludedBelow tree here p exclude)

/-- What there is to say about a source: its document and problems, or why it cannot be read. -/
structure Report where
  path : Path
  result : Except ReadFault (Document Span × List Diagnostic)

/-- Reports on the source at a path. -/
def report (tree : FileTree) (here : Location) (settings : Settings) (p : Path) : Report :=
  ⟨p, (tree.readText here p).map fun t ↦
    let d := Document.parse t
    (d, d.check settings.limit)⟩

end Source

end Lilac
