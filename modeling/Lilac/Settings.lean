import Lilac.Yaml

/-!
# Settings

A workspace may hold a settings file in YAML: a limit on the number of reported problems, and the
directories to leave out when searching for sources. Settings that are absent have defaults, and
settings nobody knows are ignored.

Specification: `SPEC_FULL.md`, on configuration and error handling.
-/

namespace Lilac

/-- The settings of a workspace. Follows `LilacSettings`. -/
structure Settings where
  /-- The largest number of problems reported for one source. -/
  limit : Int := 1000
  /-- Directories to leave out, relative to the directory that is searched. -/
  exclude : List Text := []
  deriving DecidableEq, Repr

/-- What is wrong with settings; `label` names where they come from. Follows `SettingsError`. -/
inductive SettingsFault where
  /-- There is no settings file. -/
  | notFound (path : Path)
  /-- The settings file cannot be read. -/
  | unreadable (fault : FileFault)
  /-- The settings are no YAML text. -/
  | invalidYaml (label : Text) (explanation : String)
  /-- The settings are no mapping. -/
  | notMapping (label : Text)
  /-- The limit is no integer, or a negative one. -/
  | badLimit (label : Text)
  /-- The directories to leave out are no list of strings. -/
  | badExclude (label : Text)
  deriving DecidableEq, Repr

namespace SettingsFault

/-- The words for a fault. -/
def message : SettingsFault → String
  | .notFound path => "Settings file not found: " ++ String.ofList path.text
  | .unreadable fault => "Cannot read settings file: " ++ fault.message
  | .invalidYaml label explanation =>
    "Invalid YAML in " ++ String.ofList label ++ ": " ++ explanation
  | .notMapping label => String.ofList label ++ ": settings must be a YAML mapping"
  | .badLimit label =>
    String.ofList label ++ ": 'max-number-of-problems' must be a non-negative integer"
  | .badExclude label => String.ofList label ++ ": 'exclude' must be a list of strings"

end SettingsFault

/-- Why settings cannot be loaded. -/
inductive LoadFault where
  /-- The settings are at fault, which is reported. -/
  | settings (fault : SettingsFault)
  /-- Loading them crashes. -/
  | crash (cause : Crash)
  deriving DecidableEq, Repr

/-- The words for a failure to load settings. -/
def LoadFault.message : LoadFault → String
  | .settings fault => fault.message
  | .crash cause => cause.message

namespace Settings

/-- The name of the settings file of a workspace. -/
def fileName : Text := ".lilac.yaml".toList

/-- The limit that a value sets. -/
def limitOf? : Yaml.Value → Option Int
  | .int n => if 0 ≤ n then some n else none
  | _ => none

/-- The strings in a list of values; `none` if some of them are no strings. -/
def stringsOf? : List Yaml.Value → Option (List Text)
  | [] => some []
  | .str t :: rest => (stringsOf? rest).map (t :: ·)
  | _ :: _ => none

/-- The directories that a value leaves out. -/
def excludeOf? : Yaml.Value → Option (List Text)
  | .list items => stringsOf? items
  | _ => none

/-- Reads one setting, with a default for its absence. -/
def setting {α : Type} (key : String) (default : α) (read : Yaml.Value → Option α)
    (fault : SettingsFault) (entries : List (Yaml.Value × Yaml.Value)) : Except SettingsFault α :=
  match Yaml.Value.entry? key.toList entries with
  | none => .ok default
  | some v =>
    match read v with
    | some a => .ok a
    | none => .error fault

/-- The settings that a value holds. -/
def ofValue (label : Text) : Yaml.Value → Except SettingsFault Settings
  | .null => .ok {}
  | .map entries => do
    let limit ← setting "max-number-of-problems" 1000 limitOf? (.badLimit label) entries
    let exclude ← setting "exclude" [] excludeOf? (.badExclude label) entries
    .ok ⟨limit, exclude⟩
  | _ => .error (.notMapping label)

/-- Reads settings. Follows `_parse_settings`. -/
def parse (read : Yaml.Reader) (label t : Text) : Except LoadFault Settings :=
  match read t with
  | .ok v => (ofValue label v).mapError .settings
  | .error (.malformed explanation) => .error (.settings (.invalidYaml label explanation))
  | .error (.raised exception) => .error (.crash (.raised exception))

/-- Loads the settings file at a path. Follows `load_settings`. -/
def load (read : Yaml.Reader) (tree : FileTree) (here : Location) (p : Path) :
    Except LoadFault Settings :=
  if p.hasNull then .error (.crash .nullCharacter)
  else
    match tree.readText here p with
    | .ok t => parse read p.text t
    | .error (.encoding fault) => .error (.crash (.encoding fault))
    | .error (.file fault) =>
      .error (.settings (if fault.cause = .notFound then .notFound p else .unreadable fault))

/-- Loads the settings file at a path if there is one. -/
def loadIfPresent (read : Yaml.Reader) (tree : FileTree) (here : Location) (p : Path) :
    Except LoadFault Settings :=
  match tree.has here p with
  | .error fault => .error (.crash (.file fault))
  | .ok true => load read tree here p
  | .ok false => .ok {}

end Settings

end Lilac
