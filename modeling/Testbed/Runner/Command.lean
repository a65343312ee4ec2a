import Testbed.Runner.Tool
import Testbed.Text.Search
import Testbed.Validation.Scalar

/-!
# Commands

Tests each component by a command of its own.  The component takes the place of every placeholder
in the arguments; where there is no placeholder, it is the last argument.  The program is never
changed.
-/

namespace Testbed

open Data (Value)
open Validation

/-- The configuration of the command runner. -/
structure Command where
  program : String
  arguments : List String
  directory : Option Path
  environment : List (String × String)
deriving DecidableEq, Repr

namespace Command

def model : String := "CommandConfig"

def check (es : Data.Entries) : Checked Command :=
  Checked.both (requiredField es "command" someTexts)
    (Checked.both (field es "cwd" none (optional path))
      (field es "env" [] (mapping text))) |>.map
    fun (command, directory, environment) ↦
      { program := command.headD "", arguments := command.tail, directory, environment }

def toValue (c : Command) : Value :=
  .map [(.text "command", .list ((c.program :: c.arguments).map .text)),
    (.text "cwd", match c.directory with
      | none => .null
      | some p => .text p.text),
    (.text "env", .map (c.environment.map fun (name, v) ↦ (.text name, .text v)))]

/-- What stands for the component in the arguments. -/
def placeholder : List Char := "\x7bcomponent\x7d".toList

def hasPlaceholder (argument : String) : Bool :=
  Text.occurs placeholder argument.toList

/-- An argument with the component in the place of every placeholder. -/
def withComponent (component argument : String) : String :=
  String.ofList (Text.substitute placeholder component.toList argument.toList)

/-- The command line that tests one component. -/
def commandLine (c : Command) (executable component : String) : List String :=
  executable ::
    (if c.arguments.any hasPlaceholder then c.arguments.map (withComponent component)
    else c.arguments ++ [component])

def judge (code : Int) (_output : String) : Status :=
  if code = 0 then .passed else .failed

def tool (c : Command) (executable : String) : Tool where
  commandLine := c.commandLine executable
  directory := c.directory
  environment := c.environment
  name := executable
  judge := judge
  endNotes component code :=
    [.debug .command (component ++ " exited with " ++ toString code)]

/-- Looks for the program and the working directory. -/
def prepare (c : Command) (around : Surroundings) : Except Unavailable (List Note × Tool) :=
  match around.program c.program with
  | none => .error ⟨"Test command not found: " ++ c.program⟩
  | some executable =>
    match c.directory with
    | none => .ok ([], c.tool executable)
    | some p =>
      if around.files.isDirectory p then .ok ([], c.tool executable)
      else .error ⟨"Working directory not found: " ++ p.text⟩

end Command

end Testbed
