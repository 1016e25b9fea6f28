import Lilac.Command.Arguments
import Lilac.Yaml.Value

/-!
# Platforms

What the program does not do itself: reading YAML, going down into directories, and serving a page.
The first and the last are done by others, and how deep a search goes depends on how much room there
is for nested calls. Runs take all of it from a platform. A server that never comes to an end has no
place here, since such a run has no outcome.
-/

namespace Lilac

namespace Command

/-- How a run ends. -/
inductive Ending where
  /-- With an exit code. -/
  | exit (code : Nat)
  /-- With a crash. -/
  | crash (cause : Crash)
  deriving DecidableEq, Repr

/-- Where a page is served. -/
structure Serving where
  host : Given Text
  port : Given Int
  deriving DecidableEq, Repr

/-- What a run relies on. -/
structure Platform where
  readYaml : Yaml.Reader
  /-- How many directories in one another a search goes down. One number stands for every caller of
  a search, although each leaves a little less or more room. -/
  searchDepth : Nat
  /-- How the run ends while the page is served, or nothing if serving comes to an end by itself. -/
  server : Serving → Option Ending

/-- The platform of this library: its own reader, the room that a check has, and a server that stops
at once. -/
def Platform.standard : Platform where
  readYaml := Yaml.read
  searchDepth := 987
  server := fun _ ↦ none

end Command

end Lilac
