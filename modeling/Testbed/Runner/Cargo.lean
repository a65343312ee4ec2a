import Testbed.Runner.Tool
import Testbed.Text.Search
import Testbed.Validation.Scalar

/-!
# Cargo

Tests each component as one package of a cargo workspace.  A package that is not in the workspace
could not be tested; cargo says so in its output.
-/

namespace Testbed

open Data (Value)
open Validation

/-- The configuration of the cargo runner. -/
structure Cargo where
  program : String := "cargo"
  workspace : Path := ⟨.here, []⟩
  /-- Arguments after the choice of the package. -/
  arguments : List String := []
  environment : List (String × String) := []
deriving DecidableEq, Repr

namespace Cargo

def model : String := "CargoConfig"

def check (es : Data.Entries) : Checked Cargo :=
  Checked.both (field es "cargo_path" "cargo" text)
    (Checked.both (field es "workspace" ⟨.here, []⟩ path)
      (Checked.both (field es "extra_args" [] texts)
        (field es "env" [] (mapping text)))) |>.map
    fun (program, workspace, arguments, environment) ↦
      { program, workspace, arguments, environment }

def toValue (c : Cargo) : Value :=
  .map [(.text "cargo_path", .text c.program), (.text "workspace", .text c.workspace.text),
    (.text "extra_args", .list (c.arguments.map .text)),
    (.text "env", .map (c.environment.map fun (name, v) ↦ (.text name, .text v)))]

/-- The command line that tests one package. -/
def commandLine (c : Cargo) (executable component : String) : List String :=
  [executable, "test", "-p", component] ++ c.arguments

/-- What cargo prints about a package that is not in the workspace. -/
def unknownPackage : String := "did not match any packages"

def judge (code : Int) (output : String) : Status :=
  if code = 0 then .passed
  else if Text.occurs unknownPackage.toList output.toList then .errored
  else .failed

def tool (c : Cargo) (executable : String) : Tool where
  commandLine := c.commandLine executable
  directory := some c.workspace
  environment := c.environment
  name := "cargo"
  judge := judge
  endNotes _ _ := []

/-- Looks for cargo and the workspace. -/
def prepare (c : Cargo) (around : Surroundings) : Except Unavailable (List Note × Tool) :=
  match around.program c.program with
  | none => .error ⟨"cargo executable not found: " ++ c.program⟩
  | some executable =>
    if around.files.isDirectory c.workspace then
      .ok ([.debug .cargo ("Using cargo at " ++ executable ++ " in " ++ c.workspace.text)],
        c.tool executable)
    else .error ⟨"Cargo workspace not found: " ++ c.workspace.text⟩

end Cargo

end Testbed
