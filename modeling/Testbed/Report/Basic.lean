import Testbed.Decimal.Nearest

/-!
# Reports

A run ends in a report: one outcome per component.  It is a success if there was something to test
and all of it passed.
-/

namespace Testbed

/-- How a component fared.  A label beyond the four known ones can be carried and is never counted
as any of them. -/
inductive Status where
  | passed
  | failed
  | errored
  | skipped
  | other (label : String)
deriving DecidableEq, Repr

def Status.label : Status → String
  | .passed => "passed"
  | .failed => "failed"
  | .errored => "errored"
  | .skipped => "skipped"
  | .other label => label

def Status.ofLabel (label : String) : Status :=
  if label = "passed" then .passed
  else if label = "failed" then .failed
  else if label = "errored" then .errored
  else if label = "skipped" then .skipped
  else .other label

@[simp]
theorem Status.label_ofLabel (label : String) : (Status.ofLabel label).label = label := by
  unfold Status.ofLabel
  repeat' split
  all_goals simp_all [Status.label]

/-- A length of time in seconds, as measured or as a whole number. -/
inductive Seconds where
  | whole (n : Int)
  | real (x : Float)

def Seconds.toFloat : Seconds → Float
  | .whole n => Decimal.nearestInt n
  | .real x => x

/-- What a runner answers for one attempt at a component. -/
structure Answer where
  status : Status
  diagnostics : Option String := none
deriving DecidableEq, Repr

/-- The final result of one component. -/
structure Outcome where
  component : String
  status : Status
  duration : Seconds := .real 0.0
  diagnostics : Option String := none
  attempts : Int := 0

/-- Whether a run as a whole counts as passed. -/
inductive Verdict where
  | success
  | failure
deriving DecidableEq, Repr

def Verdict.label : Verdict → String
  | .success => "success"
  | .failure => "failure"

def Verdict.exitCode : Verdict → Nat
  | .success => 0
  | .failure => 1

/-- The exit code of a program that could not run any tests. -/
def harnessErrorCode : Nat := 2

structure Report where
  outcomes : List Outcome

namespace Report

def succeeded (r : Report) : Bool :=
  !r.outcomes.isEmpty && r.outcomes.all (·.status = .passed)

def verdict (r : Report) : Verdict :=
  if r.succeeded then .success else .failure

def exitCode (r : Report) : Nat :=
  r.verdict.exitCode

/-- The number of outcomes with a status. -/
def count (r : Report) (status : Status) : Nat :=
  r.outcomes.countP (·.status = status)

/-- The components whose outcome has a status, in order. -/
def componentsWith (r : Report) (status : Status) : List String :=
  (r.outcomes.filter (·.status = status)).map (·.component)

@[simp]
theorem length_componentsWith (r : Report) (status : Status) :
    (r.componentsWith status).length = r.count status := by
  simp [componentsWith, count, List.countP_eq_length_filter]

theorem succeeded_iff {r : Report} :
    r.succeeded = true ↔ r.outcomes ≠ [] ∧ ∀ o ∈ r.outcomes, o.status = .passed := by
  simp [succeeded]

end Report

end Testbed
