import Testbed.Activity

/-!
# Runners

A runner tests one component per invocation.  An invocation is an activity; the invocations of a
runner share a state.
-/

namespace Testbed

/-- How an invocation ends. -/
inductive Ending where
  | answered (answer : Answer)
  | raised (failure : Failure)
  | interrupted

/-- A runner with the state `σ` that its invocations share and the state `ι` of each of them. -/
structure Runner (σ ι : Type) where
  start : (shared : σ) → (now : Float) → (component : String) → (capture : Bool) →
    σ × Reply ι Ending
  resume : (shared : σ) → (now : Float) → (invocation : ι) → Wake → σ × Reply ι Ending
  /-- No invocation has control more often. -/
  turns : Nat

end Testbed
