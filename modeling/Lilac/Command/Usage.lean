import Lilac.Command.Arguments

/-!
# Usage and help

The texts that the program prints about itself, line by line.
-/

namespace Lilac

namespace Command

namespace Topic

/-- The line that sums up how to call the program or a command. -/
def usage : Topic → String
  | .program => "usage: lilac [-h] COMMAND ..."
  | .check => "usage: lilac check [-h] [--config CONFIG] [paths ...]"
  | .dump => "usage: lilac dump [-h] file"
  | .serve => "usage: lilac serve [-h] [--port PORT] [--host HOST] [directory]"

/-- What the help says below the usage. -/
def description : Topic → List String
  | .program => [
      "Lilac - pattern-matching function definition checker",
      "",
      "positional arguments:",
      "  COMMAND",
      "    check     Check .lilac files for structural problems",
      "    dump      Print the parsed functions of a file as JSON",
      "    serve     Launch the interactive function viewer",
      "",
      "options:",
      "  -h, --help  show this help message and exit"]
  | .check => [
      "Parse .lilac files and report syntax issues and header/case mismatches.",
      "",
      "positional arguments:",
      "  paths            Files or directories to check (default: current directory)",
      "",
      "options:",
      "  -h, --help       show this help message and exit",
      "  --config CONFIG  Settings file to use (default: .lilac.yaml in the current",
      "                   directory, if present)"]
  | .dump => [
      "Parse a .lilac file and print its function syntax trees as JSON.",
      "",
      "positional arguments:",
      "  file        The .lilac file to parse",
      "",
      "options:",
      "  -h, --help  show this help message and exit"]
  | .serve => [
      "Launch a web-based UI listing the functions and diagnostics of a directory.",
      "",
      "positional arguments:",
      "  directory    Directory containing .lilac files (default: current directory)",
      "",
      "options:",
      "  -h, --help   show this help message and exit",
      "  --port PORT  Port to run the server on (default: 8050)",
      "  --host HOST  Host to bind the server to (default: 127.0.0.1)"]

/-- The help on the program or a command. -/
def help (topic : Topic) : List String := topic.usage :: "" :: topic.description

end Topic

/-- The lines that report arguments that are not in order. -/
def misuseLines (topic : Topic) (complaint : Complaint) : List String :=
  [topic.usage, topic.caller ++ ": error: " ++ complaint.message]

end Command

end Lilac
