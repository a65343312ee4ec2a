import Testbed.Runner.Cargo
import Testbed.Runner.Command

/-!
# Catalogue of runners

Runners are published under keys.  What is published under a key need not be usable: it may fail to
load, be no manifest, or be a manifest without a proper configuration or factory.  Looking up a key
loads the first entry of that key and no other.  What the configuration models and the factories are
makes no difference to a lookup; those of the installed runners are known by the kind of tool.
-/

namespace Testbed

open Data (Value)
open Validation

/-- The tools that runners are made for. -/
inductive ToolKind where
  | cargo
  | command
deriving DecidableEq, Repr

/-- The configuration that a manifest declares. -/
inductive Manifest.Settings (κ : Type := ToolKind) where
  | model (kind : κ)
  /-- Something else, as it is shown. -/
  | other (shown : String)
deriving DecidableEq, Repr

/-- The factory that a manifest declares; without a kind it cannot be called. -/
abbrev Manifest.Factory (φ : Type := ToolKind) := Option φ

structure Manifest (κ φ : Type := ToolKind) where
  settings : Manifest.Settings κ
  factory : Manifest.Factory φ
deriving DecidableEq, Repr

/-- What loading an entry of the catalogue gives. -/
inductive Published (κ φ : Type := ToolKind) where
  | manifest (m : Manifest κ φ)
  /-- Something that is no manifest, by the name of its type. -/
  | other (kind : String)
  | broken (failure : Failure)
deriving DecidableEq, Repr

/-- A manifest that can configure and build a runner. -/
structure Usable (κ φ : Type := ToolKind) where
  settings : κ
  factory : φ
deriving DecidableEq, Repr

/-- Why there is no usable runner under a key. -/
inductive LookupError where
  | notFound (key : String) (available : List String)
  | notManifest (key kind : String)
  | noModel (key shown : String)
  | noFactory (key : String)
  | broken (failure : Failure)
deriving DecidableEq, Repr

def LookupError.message : LookupError → String
  | .notFound key available =>
    "Runner '" ++ key ++ "' not found. Available runners: " ++ Text.quotedList available
  | .notManifest key kind =>
    "Runner '" ++ key ++ "' entry point is a " ++ kind ++ ", not a RunnerManifest"
  | .noModel key shown =>
    "Runner '" ++ key ++ "' configuration class must be a pydantic model, got " ++ shown
  | .noFactory key => "Runner '" ++ key ++ "' has no callable runner factory"
  | .broken failure => failure.text

/-- Checks what is published under a key. -/
def Published.usable {κ φ : Type} (key : String) :
    Published κ φ → Except LookupError (Usable κ φ)
  | .other kind => .error (.notManifest key kind)
  | .broken failure => .error (.broken failure)
  | .manifest { settings := .other shown, .. } => .error (.noModel key shown)
  | .manifest { settings := .model _, factory := none } => .error (.noFactory key)
  | .manifest { settings := .model settings, factory := some factory } =>
    .ok { settings, factory }

/-- The published runners with their keys, in order. -/
abbrev Catalogue (κ φ : Type := ToolKind) := List (String × Published κ φ)

namespace Catalogue

/-- The group of entry points that publish runners. -/
def group : String := "component_test_runner.runners"

def manifestOf (kind : ToolKind) : Manifest where
  settings := .model kind
  factory := some kind

def installed : Catalogue :=
  [("cargo", .manifest (manifestOf .cargo)), ("command", .manifest (manifestOf .command))]

variable {α κ φ : Type}

/-- All keys in ascending order. -/
def keys (entries : List (String × α)) : List String :=
  (entries.map (·.1)).mergeSort fun a b ↦ decide (a ≤ b)

/-- The usable runner under a key, among entries that are still to be loaded. -/
def search {m : Type → Type} [Monad m] (load : α → m (Published κ φ))
    (entries : List (String × α)) (key : String) : m (Except LookupError (Usable κ φ)) :=
  match entries.find? (·.1 = key) with
  | some (_, entry) => return (← load entry).usable key
  | none => return .error (.notFound key (keys entries))

/-- The usable runner under a key. -/
def lookup (c : Catalogue κ φ) (key : String) : Except LookupError (Usable κ φ) :=
  Id.run (search pure c key)

theorem lookup_eq (c : Catalogue κ φ) (key : String) :
    c.lookup key = match c.find? (·.1 = key) with
      | some (_, published) => published.usable key
      | none => .error (.notFound key (keys c)) := by
  unfold lookup search
  cases c.find? (·.1 = key) <;> rfl

end Catalogue

/-- A configured runner. -/
inductive Configured where
  | cargo (c : Cargo)
  | command (c : Command)
deriving DecidableEq, Repr

namespace ToolKind

def model : ToolKind → String
  | .cargo => Cargo.model
  | .command => Command.model

/-- The name of the factory of a tool. -/
def factoryName : ToolKind → String
  | .cargo => "CargoRunner.from_config"
  | .command => "CommandRunner.from_config"

def check (kind : ToolKind) (es : Data.Entries) : Checked Configured :=
  match kind with
  | .cargo => (Cargo.check es).map .cargo
  | .command => (Command.check es).map .command

/-- Configures a tool by named values; names without a meaning are ignored. -/
def configure (kind : ToolKind) (entries : List (String × Value)) : Except Rejection Configured :=
  verdict kind.model (kind.check (entries.map fun (name, v) ↦ (.text name, v)))

end ToolKind

namespace Configured

def toValue : Configured → Value
  | .cargo c => c.toValue
  | .command c => c.toValue

/-- The program that a runner executes, as it is called in the configuration. -/
def program : Configured → String
  | .cargo c => c.program
  | .command c => c.program

/-- The directory in which it is executed, if there is a choice. -/
def directory? : Configured → Option Path
  | .cargo c => some c.workspace
  | .command c => c.directory

def prepare (c : Configured) (around : Surroundings) : Except Unavailable (List Note × Tool) :=
  match c with
  | .cargo c => c.prepare around
  | .command c => c.prepare around

def commandLine (c : Configured) (executable component : String) : List String :=
  match c with
  | .cargo c => c.commandLine executable component
  | .command c => c.commandLine executable component

end Configured

end Testbed
