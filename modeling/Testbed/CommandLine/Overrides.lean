import Testbed.CommandLine.Arguments
import Testbed.Config.Loading
import Testbed.Data.Json.Reader

/-!
# Options over a configuration

The options of a command line replace parts of the configuration that is read from a file.  What
they give is checked together with the rest of the configuration, by the rules for files.
-/

namespace Testbed.CommandLine

open Data (Value Entries)
open Validation

/-- Why the options and the file give no configuration. -/
inductive OptionsError where
  /-- The name of the file was left blank. -/
  | blankPath
  | load (e : Config.LoadError)
  | notJson (e : Data.Json.Error)
  | notObject
  | flawed (model : String) (issues : List Issue)
  | overflow

def OptionsError.message : OptionsError → String
  | .blankPath => "'list' object has no attribute 'is_file'"
  | .load e => e.message
  | .notJson e => match e.cause with
    | .tooLong _ => e.message
    | _ => "Invalid --runner-config JSON: " ++ e.message
  | .notObject => "--runner-config must be a JSON object"
  | .flawed model issues => "Invalid options: " ++ shownIssues model issues
  | .overflow => Rejection.overflow.message

/-- The value that an option gives, if it is there; a blank one counts as an empty list. -/
def Given.toValue? {α : Type} (toValue : α → Value) : Given α → Option Value
  | .absent => none
  | .blank => some (.list [])
  | .value x => some (toValue x)

/-- Puts values under names. -/
def putAll (es : Entries) (changes : Entries) : Entries :=
  changes.foldl (fun es (k, v) ↦ es.put k v) es

namespace Arguments

/-- The components that the options name, or those of the configuration. -/
def componentsOver (a : Arguments) (c : Config) : Value :=
  if a.components.isEmpty then .list (c.components.map .text)
  else .list (a.components.map fun
    | some name => .text name
    | none => .list [])

/-- The key of the runner, if the options name one that differs from the configuration's. -/
def otherRunner? (a : Arguments) (c : Config) : Option String :=
  a.runner.value?.filter fun key ↦ key ≠ "" && key ≠ c.runner

/-- The runner's configuration from the file, which belongs to one runner alone. -/
def runnerConfigOver (a : Arguments) (c : Config) : Entries :=
  if (a.otherRunner? c).isSome then []
  else c.runnerConfig.map fun (name, v) ↦ (.text name, v)

/-- The runner's configuration that the options add. -/
def runnerConfigChanges (a : Arguments) : Except OptionsError Entries :=
  match a.runnerConfig with
  | .value text =>
    if text = "" then .ok []
    else match Data.Json.read text with
      | .error e => .error (.notJson e)
      | .ok (.map es) => .ok es
      | .ok _ => .error .notObject
  | _ => .ok []

/-- The fields of the policy that the options set. -/
def policyChanges (a : Arguments) : Entries :=
  let set (name : String) (v? : Option Value) : Entries := (v?.map (.text name, ·)).toList
  set "fail_fast" (if a.failFast then some (.flag true) else none) ++
    set "parallelism" (a.parallelism.toValue? .int) ++
    set "capture_output" (if a.noCapture then some (.flag false) else none) ++
    set "timeout" (a.timeout.toValue? .text) ++
    set "retries" (a.retries.toValue? .int)

def policyOver (a : Arguments) (c : Config) : Value :=
  match c.policy.toValue with
  | .map es => .map (putAll es a.policyChanges)
  | v => v

/-- The data of a configuration with the options in place of what they replace. -/
def merged (a : Arguments) (c : Config) : Except OptionsError Value := do
  let changes ← a.runnerConfigChanges
  .ok (.map [
    (.text "version", .text c.version),
    (.text "runner", .text ((a.otherRunner? c).getD c.runner)),
    (.text "runner_config", .map (putAll (a.runnerConfigOver c) changes)),
    (.text "components", a.componentsOver c),
    (.text "policy", a.policyOver c)])

/-- A configuration with the options in place of what they replace. -/
def apply (a : Arguments) (c : Config) : Except OptionsError Config := do
  let data ← a.merged c
  (Config.validate data).mapError fun
    | .flawed model issues => .flawed model issues
    | .overflow => .overflow

/-- The file that the options ask for. -/
def file? (a : Arguments) : Except OptionsError (Option Path) :=
  match a.config with
  | .absent => .ok none
  | .blank => .error .blankPath
  | .value path => .ok (some path)

/-- The configuration that a command line asks for, with what is logged on the way. -/
def configuration (a : Arguments) (files : Files) : List Note × Except OptionsError Config :=
  match a.file? with
  | .error e => ([], .error e)
  | .ok path => match Config.resolve files path with
    | .error e => ([], .error (.load e))
    | .ok (c, note) => ([note], a.apply c)

end Arguments

end Testbed.CommandLine
