import Testbed.Config
import Testbed.Data.Yaml.Document
import Testbed.Journal
import Testbed.Surroundings
import Testbed.Text.Lines

/-!
# Configuration files

A configuration is read from a YAML file: the one that is asked for, or else the usual one if there
is such a file, or else it is the default.
-/

namespace Testbed.Config

open Data (Value)
open Validation

/-- Why a file gives no configuration. -/
inductive LoadError where
  | missing (path : Path)
  /-- The file is not encoded in UTF-8. -/
  | undecodable (part : Text.Invalid)
  | notYaml (path : Path)
  /-- A scalar is written correctly but has no value. -/
  | meaningless (fault : Data.Yaml.Fault)
  | empty (path : Path)
  | notMapping (path : Path)
  | flawed (path : Path) (model : String) (issues : List Issue)
  | overflow

namespace LoadError

def message : LoadError → String
  | .missing path => "Configuration file not found: " ++ path.text
  | .undecodable part => part.message
  | .notYaml path => "Invalid YAML in " ++ path.text
  | .meaningless fault => fault.message
  | .empty path => "Empty configuration file: " ++ path.text
  | .notMapping path => "Configuration in " ++ path.text ++ " must be a mapping"
  | .flawed path model issues =>
    "Invalid configuration schema in " ++ path.text ++ ": " ++ shownIssues model issues
  | .overflow => Rejection.overflow.message

end LoadError

/-- The file that is read unless another one is asked for. -/
def usualFile : Path :=
  .ofString "components.yaml"

/-- The configuration in the text of a file. -/
def ofText (path : Path) (text : String) : Except LoadError Config := do
  match Data.Yaml.read (Text.normalizeNewlines text.toList) with
  | .error .malformed => .error (.notYaml path)
  | .error fault => .error (.meaningless fault)
  | .ok .null => .error (.empty path)
  | .ok (.map entries) =>
    match validate (.map entries) with
    | .ok config => .ok config
    | .error (.flawed model issues) => .error (.flawed path model issues)
    | .error .overflow => .error .overflow
  | .ok _ => .error (.notMapping path)

/-- The configuration in a file. -/
def load (files : Files) (path : Path) : Except LoadError Config := do
  match files.file? path with
  | none => .error (.missing path)
  | some bytes => match Text.decode bytes with
    | .error part => .error (.undecodable part)
    | .ok text => ofText path text

def loadedNote (path : Path) : Note :=
  .debug .configuration ("Loaded configuration from " ++ path.text)

def defaultNote : Note :=
  .debug .configuration "No configuration file, using built-in defaults"

/-- The configuration that is used if the given file, or none, is asked for, with what is logged
about it. -/
def resolve (files : Files) (asked : Option Path) : Except LoadError (Config × Note) := do
  let path? := asked <|> if (files.file? usualFile).isSome then some usualFile else none
  match path? with
  | some path => .ok (← load files path, loadedNote path)
  | none => .ok (default, defaultNote)

end Testbed.Config
