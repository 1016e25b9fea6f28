import Lilac.FileTree

/-!
# Crashes

Some failures are reported in words of the program's own and lead to an exit code. The others are
crashes: they end whatever is going on, and nothing more is said about them than what they are.
-/

namespace Lilac

/-- What something outside the program raises: the kind of it, and its words. -/
structure Exception where
  kind : String
  message : String
  deriving DecidableEq, Repr

/-- A failure that nothing in the program expects. -/
inductive Crash where
  /-- A settings file is no UTF-8 text. -/
  | encoding (fault : Utf8.Fault)
  /-- Something that the program relies on raises an exception. -/
  | raised (exception : Exception)
  /-- Directories are nested deeper than a search goes. -/
  | tooDeep
  /-- A null character stands in a path that has to be followed. -/
  | nullCharacter
  /-- A path has to be followed, and nothing is given for it. -/
  | noPath
  /-- The working directory has been taken away. -/
  | noWorkingDirectory
  /-- Something fails that is done with the file at a path. -/
  | file (fault : FileFault)
  deriving DecidableEq, Repr

/-- The words for a crash. -/
def Crash.message : Crash → String
  | .encoding fault => fault.message
  | .raised exception => exception.message
  | .tooDeep => "maximum recursion depth exceeded"
  | .nullCharacter => "embedded null byte"
  | .noPath => "expected str, bytes or os.PathLike object, not list"
  | .noWorkingDirectory => FileCause.notFound.message
  | .file fault => fault.message

/-- The location a path stands for in a working directory, whether there is anything or not. The
working directory itself must be there if the path starts at it. -/
def FileTree.resolve (tree : FileTree) (here : Location) (p : Path) : Except Crash Location :=
  if p.hasNull then .error .nullCharacter
  else if p.anchor = .here ∧ tree.entry? here = none then .error .noWorkingDirectory
  else .ok (p.resolve here)

end Lilac
