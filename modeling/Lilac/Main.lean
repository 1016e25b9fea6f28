import Lilac.Command.Run

/-!
# The program

The outermost layer: it takes what a run can look at from the disk into a file tree, runs, and
writes the outcome to the output streams.
-/

namespace Lilac

namespace Main

/-- A location as the operating system writes it. -/
def diskPath (l : Location) : String := String.ofList (Path.ofLocation l).text

/-- The tree with what there is at a location on disk, without anything below it. -/
def loadEntry (tree : FileTree) (l : Location) : IO FileTree := do
  try
    let found ← IO.FS.realPath (diskPath l)
    if ← found.isDir then return tree.makeDirectory l
    else if ← found.pathExists then
      let bytes ← IO.FS.readBinFile (diskPath l)
      return tree.writeFile l bytes.toList
    else return tree
  catch _ => return tree

/-- The tree with what there is at a location on disk and everything below it. -/
partial def loadBelow (tree : FileTree) (l : Location) : IO FileTree := do
  let mut tree ← loadEntry tree l
  try
    let found ← IO.FS.realPath (diskPath l)
    if ← found.isDir then
      for entry in ← found.readDir do
        tree ← loadBelow tree (l ++ [entry.fileName.toList])
    return tree
  catch _ => return tree

/-- The tree with everything a path can lead to: what stands on the way, and what is below its
end. -/
def loadPath (here : Location) (tree : FileTree) (p : Path) : IO FileTree := do
  let mut tree := tree
  let mut l := p.start here
  for part in p.parts do
    l := Path.follow l [part]
    tree ← loadEntry tree l
  loadBelow tree (p.resolve here)

/-- The paths that a run looks at. -/
def pathsOf : Command.Invocation → List Text
  | .check (some (.value config)) paths => config :: paths
  | .check _ paths => paths
  | .dump file => [file]
  | .serve directory _ _ => [directory]

/-- The working directory. -/
def workingDirectory : IO Location := do
  return (Path.ofText (← IO.currentDir).toString.toList).parts

/-- Takes from the disk what a run with the given arguments can look at. -/
def loadTree (here : Location) (arguments : List Text) : IO FileTree := do
  let mut tree := FileTree.empty.makeDirectory here
  match Command.parse arguments with
  | .error _ => return tree
  | .ok invocation =>
    for t in Settings.fileName :: pathsOf invocation do
      tree ← loadPath here tree (Path.ofText t)
    return tree

/-- Writes an outcome to the output streams and gives the exit code. -/
def report (o : Command.Outcome) : IO UInt32 := do
  IO.print (Command.linesText o.out)
  IO.eprint (Command.linesText o.err)
  match o.ending with
  | .exit code => return code.toUInt32
  | .crash cause =>
    IO.eprintln cause.message
    return 1

end Main

end Lilac

/-- Runs the program on the arguments of the command line. -/
def main (arguments : List String) : IO UInt32 := do
  let arguments := arguments.map String.toList
  let here ← Lilac.Main.workingDirectory
  let tree ← Lilac.Main.loadTree here arguments
  Lilac.Main.report (Lilac.Command.run .standard tree here arguments)
