import Testbed.Validation.Scalar

/-!
# Run policy

How a run schedules its components and treats their results.
-/

namespace Testbed

open Data (Value)
open Validation

structure Policy where
  /-- Start no further component after the first that failed or could not be tested. -/
  failFast : Bool := false
  /-- The number of components tested at once. -/
  parallelism : Int := 1
  /-- Keep the output of the runner as diagnostics. -/
  captureOutput : Bool := true
  /-- The time limit of one attempt in seconds. -/
  timeout : Option Float := none
  /-- Further attempts at a component whose runner could not execute. -/
  retries : Int := 0

namespace Policy

/-- The name of the model in messages. -/
def model : String := "RunPolicy"

def fieldNames : List String :=
  ["fail_fast", "parallelism", "capture_output", "timeout", "retries"]

/-- Checks data for a policy; fields that are missing have their defaults. -/
def check : Value → Checked Policy
  | .map es =>
    Checked.both (field es "fail_fast" false flag)
      (Checked.both (field es "parallelism" 1 (integerFrom 1))
        (Checked.both (field es "capture_output" true flag)
          (Checked.both (field es "timeout" none limit)
            (Checked.both (field es "retries" 0 (integerFrom 0)) (noOthers es fieldNames))))) |>.map
      fun (failFast, parallelism, captureOutput, timeout, retries, _) ↦
        { failFast, parallelism, captureOutput, timeout, retries }
  | _ => reject (.notRecord model)

def validate (v : Value) : Except Rejection Policy :=
  verdict model (check v)

/-- A policy as data. -/
def toValue (p : Policy) : Value :=
  .map [(.text "fail_fast", .flag p.failFast), (.text "parallelism", .int p.parallelism),
    (.text "capture_output", .flag p.captureOutput),
    (.text "timeout", match p.timeout with
      | none => .null
      | some x => .float x),
    (.text "retries", .int p.retries)]

/-- What an attempt to change a field of a policy amounts to: policies do not change, but names that
start with an underscore are no fields. -/
def assign (name : String) : Checked Unit :=
  if name.toList.head? = some '_' then .ok () else (reject .frozen).under (.name name)

end Policy

end Testbed
