import Testbed.Policy
import Testbed.Registry

/-!
# Harness configuration

What to test, with which runner, and how.
-/

namespace Testbed

open Data (Value)
open Validation

structure Config where
  version : String
  /-- The key of the runner. -/
  runner : String
  /-- The configuration of the runner, which the runner itself checks. -/
  runnerConfig : List (String × Value)
  /-- The components to test, in order. -/
  components : List String
  policy : Policy

namespace Config

def model : String := "HarnessConfig"

/-- The packages that are tested without any configuration. -/
def defaultComponents : List String :=
  ["bitcrypto", "chain", "db", "ethcore-devtools", "import", "keys", "message", "miner", "pbtc",
    "p2p", "primitives", "script", "serialization", "sync", "verification"]

def default : Config where
  version := "1.0"
  runner := "cargo"
  runnerConfig := []
  components := defaultComponents
  policy := {}

def fieldNames : List String :=
  ["version", "runner", "runner_config", "components", "policy"]

def check : Value → Checked Config
  | .map es =>
    Checked.both (field es "version" default.version text)
      (Checked.both (field es "runner" default.runner text)
        (Checked.both (field es "runner_config" default.runnerConfig (mapping anything))
          (Checked.both (field es "components" default.components texts)
            (Checked.both (field es "policy" default.policy Policy.check)
              (noOthers es fieldNames))))) |>.map
      fun (version, runner, runnerConfig, components, policy, _) ↦
        { version, runner, runnerConfig, components, policy }
  | _ => reject (.notRecord model)

def validate (v : Value) : Except Rejection Config :=
  verdict model (check v)

def toValue (c : Config) : Value :=
  .map [(.text "version", .text c.version), (.text "runner", .text c.runner),
    (.text "runner_config", .map (c.runnerConfig.map fun (name, v) ↦ (.text name, v))),
    (.text "components", .list (c.components.map .text)), (.text "policy", c.policy.toValue)]

def registry (c : Config) : Registry where
  components := c.components

end Config

end Testbed
