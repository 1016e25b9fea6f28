import Lilac.Command.Color
import Lilac.Command.Platform
import Lilac.Command.Usage
import Lilac.Data.Encoding
import Lilac.Data.Json
import Lilac.Page

/-!
# Running the program

A run takes a platform, a file tree, a working directory and arguments, and gives what is written to
the two output streams, line by line, and how the run ends. Nothing else is changed by a run.

Specification: `SPEC_FULL.md`, on the command line.
-/

namespace Lilac

namespace Command

/-- The outcome of a run. -/
structure Outcome where
  ending : Ending
  /-- The lines written to standard output. -/
  out : List String := []
  /-- The lines written to the error stream. -/
  err : List String := []
  serving : Option Serving := none
  deriving DecidableEq, Repr

namespace Outcome

/-- A run that ends with lines on the error stream only. -/
def failure (code : Nat) (err : List String) : Outcome := ⟨.exit code, [], err, none⟩

/-- A run that ends with a crash before anything is written. -/
def ofCrash (c : Crash) : Outcome := ⟨.crash c, [], [], none⟩

/-- A run that ends because settings cannot be loaded. -/
def ofLoadFault : LoadFault → Outcome
  | .settings fault => failure 1 ["Error: " ++ fault.message]
  | .crash cause => ofCrash cause

end Outcome

/-- Lines as one text. -/
def linesText (lines : List String) : String := String.join (lines.map (· ++ "\n"))

/-! ## Checking -/

/-- The settings for checking: those of the given file, or those of the working directory. Follows
`_load_cli_settings`. -/
def checkSettings (read : Yaml.Reader) (tree : FileTree) (here : Location) :
    Option (Given Text) → Except LoadFault Settings
  | some (.value config) => Settings.load read tree here (.ofText config)
  | some .nothing => .error (.crash .noPath)
  | none => do
    let l ← (tree.resolve here ⟨.here, []⟩).mapError .crash
    Settings.loadIfPresent read tree here ((Path.ofLocation l).join (.ofText Settings.fileName))

/-- The line for a source that cannot be read. -/
def unreadableLine (p : Path) (fault : ReadFault) : String :=
  "Error: cannot read '" ++ String.ofList p.text ++ "': " ++ fault.message

/-- The lines of a report that go to the error stream. -/
def errorLines (r : Source.Report) : List String :=
  match r.result with
  | .error fault => [unreadableLine r.path fault]
  | .ok (_, diagnostics) =>
    (diagnostics.filter (·.severity = .error)).map (diagnosticLine r.path)

/-- The lines of a report that go to standard output. -/
def remarkLines (r : Source.Report) : List String :=
  match r.result with
  | .error _ => []
  | .ok (_, diagnostics) =>
    (diagnostics.filter (·.severity ≠ .error)).map (diagnosticLine r.path)

/-- The outcome of checking sources, given the reports on them. -/
def checkReports (reports : List Source.Report) : Outcome :=
  if reports = [] then { ending := .exit 0, out := ["No .lilac files found."] }
  else
    let start := "Checking " ++ natString reports.length ++ " file(s)..."
    let remarks := reports.flatMap remarkLines
    let errors := reports.flatMap errorLines
    if errors = [] then
      { ending := .exit 0, out := start :: remarks ++ ["No issues found."] }
    else { ending := .exit 1, out := start :: remarks, err := errors }

/-- The sources that paths stand for, one path after the other, or how the run ends at the first
path that leads nowhere or whose sources cannot be found. -/
def findAll (depth : Nat) (tree : FileTree) (here : Location) (exclude : List Text) :
    List Path → Except Outcome (List Path)
  | [] => .ok []
  | p :: rest =>
    match tree.has here p with
    | .error fault => .error (.ofCrash (.file fault))
    | .ok false =>
      .error (.failure 1 ["Error: path '" ++ String.ofList p.text ++ "' does not exist."])
    | .ok true =>
      match Source.find depth tree here exclude p with
      | .error cause => .error (.ofCrash cause)
      | .ok found => (findAll depth tree here exclude rest).map (found ++ ·)

/-- Checks the sources that paths stand for, under given settings. -/
def checkPaths (depth : Nat) (tree : FileTree) (here : Location) (settings : Settings)
    (paths : List Text) : Outcome :=
  match findAll depth tree here settings.exclude (paths.map .ofText) with
  | .error outcome => outcome
  | .ok sources => checkReports (sources.map (Source.report tree here settings))

/-- Checks the sources that paths stand for. Follows `_cmd_check`. -/
def runCheck (platform : Platform) (tree : FileTree) (here : Location)
    (config : Option (Given Text)) (paths : List Text) : Outcome :=
  match checkSettings platform.readYaml tree here config with
  | .error fault => .ofLoadFault fault
  | .ok settings => checkPaths platform.searchDepth tree here settings paths

/-! ## Dumping -/

/-- The line for a structural fault of a dumped file. -/
def issueLine (p : Path) (i : Issue Span) : String :=
  String.ofList p.text ++ ":" ++ integerString i.place.line ++ ":"
    ++ integerString i.place.column ++ ": " ++ i.fault.message

/-- The functions of a document as JSON. -/
def functionsJson (d : Document Span) : Text := (Data.list (d.functions.map (·.toData))).json 0

/-- Prints the functions of a file as JSON, and its structural faults on the error stream. Follows
`_cmd_dump`. -/
def runDump (tree : FileTree) (here : Location) (file : Text) : Outcome :=
  let p := Path.ofText file
  if p.hasNull then .ofCrash .nullCharacter
  else
    match tree.readText here p with
    | .error fault => .failure 1 [unreadableLine p fault]
    | .ok t =>
      let d := Document.parse t
      { ending := .exit 0, out := [String.ofList (functionsJson d)],
        err := d.issues.map (issueLine p) }

/-! ## Serving -/

/-- Starts to serve the page of a directory. -/
def serveDirectory (platform : Platform) (tree : FileTree) (here : Location) (p : Path)
    (s : Serving) : Outcome :=
  match Page.ofDirectory platform.readYaml platform.searchDepth tree here p with
  | .error fault => .ofLoadFault fault
  | .ok _ =>
    { ending := (platform.server s).getD (.exit 0),
      out := ["Serving function view at http://" ++ String.ofList (s.host.text id) ++ ":"
        ++ String.ofList (s.port.text integerText) ++ "/"],
      serving := some s }

/-- Starts to serve the page of a directory if there is one at a path. Follows `_cmd_serve`. -/
def runServe (platform : Platform) (tree : FileTree) (here : Location) (directory : Text)
    (s : Serving) : Outcome :=
  match tree.resolve here (.ofText directory) with
  | .error cause => .ofCrash cause
  | .ok l =>
    let p := Path.ofLocation l
    match tree.isDirectory here p with
    | .error fault => .ofCrash (.file fault)
    | .ok false => .failure 1 ["Error: directory '" ++ String.ofList p.text ++ "' does not exist."]
    | .ok true => serveDirectory platform tree here p s

/-! ## The program -/

/-- Runs what the arguments ask for. Follows `_dispatch`. -/
def runInvocation (platform : Platform) (tree : FileTree) (here : Location) :
    Invocation → Outcome
  | .check config paths => runCheck platform tree here config paths
  | .dump file => runDump tree here file
  | .serve directory host port => runServe platform tree here directory ⟨host, port⟩

/-- Runs the program. Follows `main`. -/
def run (platform : Platform) (tree : FileTree) (here : Location) (arguments : List Text) :
    Outcome :=
  match parse arguments with
  | .ok invocation => runInvocation platform tree here invocation
  | .error (.help topic) => { ending := .exit 0, out := topic.help }
  | .error (.misuse topic complaint) => .failure 2 (misuseLines topic complaint)

end Command

end Lilac
