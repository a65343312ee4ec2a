import Testbed.Files
import Testbed.Job.Child

/-!
# Surroundings

What the program finds around it: the files below its working directory, the environment, where
programs are installed, and how the processes behave that it starts.
-/

namespace Testbed

structure Surroundings where
  files : Files
  environment : List (String × String)
  /-- Where a program is installed. -/
  program : String → Option String
  /-- The behaviour of the processes in the order in which they are started. -/
  behaviour : Nat → Job.Behaviour
  /-- A bound on the pieces of output of any process. -/
  pieces : Nat

/-- The environment with some variables set anew. -/
def Surroundings.environmentWith (s : Surroundings) (changes : List (String × String)) :
    List (String × String) :=
  s.environment.filter (fun v ↦ changes.all (·.1 ≠ v.1)) ++ changes

end Testbed
