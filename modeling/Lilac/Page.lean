import Lilac.Source

/-!
# The page of a workspace

The page shows every source of a directory: its functions in their printed form and its problems, or
why it cannot be read. It is a tree of elements with a type, properties and children.

Specification: `SPEC_FULL.md`, on the web viewer.
-/

namespace Lilac

/-- An element of a page. -/
inductive Element where
  /-- An element with text in it. -/
  | text (type : String) (style : List (String × String)) (content : String)
  /-- An element with elements in it. -/
  | group (type : String) (className : Option String) (style : List (String × String))
      (children : List Element)
  /-- An element with nothing in it. -/
  | void (type : String)
  deriving Repr

namespace Page

/-- The title of the page. -/
def title : String := "Lilac Function Viewer"

/-- The colour of a severity. -/
def color : Severity → String
  | .error => "#b00020"
  | .warning => "#b26a00"
  | .information => "#1a5fb4"

/-- A problem as an item of a list. Follows `_build_diagnostic_item`. -/
def diagnosticItem (d : Diagnostic) : Element :=
  let place := match d.span with
    | some s => "line " ++ integerString s.line ++ ": "
    | none => ""
  .text "Li" [("color", color d.severity)] (place ++ d.message)

/-- The problems of a source, or that it has none. -/
def problems (ds : List Diagnostic) : Element :=
  if ds = [] then .text "P" [("color", "#2e7d32")] "No issues found."
  else .group "Ul" none [] (ds.map diagnosticItem)

/-- The functions of a source in their printed form. -/
def functions (d : Document Span) : Element :=
  .text "Pre" []
    (String.ofList ((Function.printAll? Function.standardIndent d.functions).getD []))

/-- What is shown of a source below its name. -/
def body (r : Source.Report) : List Element :=
  match r.result with
  | .error fault => [.text "P" [("color", color .error)] ("Cannot read file: " ++ fault.message)]
  | .ok (document, diagnostics) => [functions document, problems diagnostics]

/-- The section of a source, under its path relative to the directory. Follows
`_build_source_section`. -/
def sourceSection (directory : Path) (r : Source.Report) : Element :=
  let label := String.ofList (directory.relativeTo r.path).text
  .group "Div" (some "lilac-source") [] (.text "H2" [] label :: body r)

/-- The reports on the sources of a directory, with the settings found there. -/
def reports (read : Yaml.Reader) (depth : Nat) (tree : FileTree) (here : Location)
    (directory : Path) : Except LoadFault (List Source.Report) := do
  let settings ← Settings.loadIfPresent read tree here (directory.join (.ofText Settings.fileName))
  let sources ← (Source.find depth tree here settings.exclude directory).mapError .crash
  .ok (sources.map (Source.report tree here settings))

/-- The page of a directory with the given reports. Follows `_build_layout`. -/
def render (directory : Path) (rs : List Source.Report) : Element :=
  let sections :=
    if rs = [] then [.text "P" [("color", "#666")] "No .lilac files found."]
    else rs.map (sourceSection directory)
  .group "Div" none [("fontFamily", "sans-serif"), ("padding", "2rem")]
    (.text "H1" [] title :: .text "P" [] ("Workspace: " ++ String.ofList directory.text)
      :: .void "Hr" :: sections)

/-- The page of a directory. Follows `create_app`. -/
def ofDirectory (read : Yaml.Reader) (depth : Nat) (tree : FileTree) (here : Location)
    (directory : Path) : Except LoadFault Element :=
  (reports read depth tree here directory).map (render directory)

end Page

end Lilac
