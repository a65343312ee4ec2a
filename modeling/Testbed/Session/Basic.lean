import Testbed.CommandLine.Overrides
import Testbed.Run.Execution
import Testbed.Runner.Catalogue

/-!
# Sessions

A session is one use of the program.  It starts with a configuration, looks for everything that the
tests need, runs them, and ends with a report.  An obstacle that is found before the tests is logged
and ends the session with a code of its own, before any process is started.
-/

namespace Testbed

/-- Why the tests cannot be run at all. -/
inductive Obstacle where
  | options (e : CommandLine.OptionsError)
  | registry (e : Registry.Error)
  | lookup (e : LookupError)
  | settings (model : String) (issues : List Validation.Issue)
  | unavailable (e : Unavailable)

def Obstacle.message : Obstacle → String
  | .options e => e.message
  | .registry e => e.message
  | .lookup e => e.message
  | .settings model issues =>
    "Invalid runner configuration: " ++ Validation.shownIssues model issues
  | .unavailable e => e.message

/-- Errors that no session is prepared for: bytes that are no text, scalars without a value, and
integers beyond the doubles. -/
inductive Fault where
  | options (e : CommandLine.OptionsError)
  | settings
  | lookup (e : LookupError)
  | run (abort : Abort)

def Fault.message : Fault → String
  | .options e => e.message
  | .settings => Validation.Rejection.overflow.message
  | .lookup e => e.message
  | .run (.failure failure) => failure.text
  | .run .interrupted => "interrupted"

/-- Whether a session reports an error of its options as an obstacle. -/
def CommandLine.OptionsError.isReported : CommandLine.OptionsError → Bool
  | .blankPath => false
  | .load (.undecodable _) => false
  | .load (.meaningless _) => false
  | .load .overflow => false
  | .load _ => true
  | .notJson { cause := .tooLong _, .. } => false
  | .notJson _ => true
  | .notObject => true
  | .flawed .. => true
  | .overflow => false

/-- How a session ends. -/
inductive Conclusion where
  | report (r : Report)
  | obstacle (o : Obstacle)
  | fault (f : Fault)

/-- The code with which a session ends, unless a fault ends it. -/
def Conclusion.exitCode? : Conclusion → Option Nat
  | .report r => some r.exitCode
  | .obstacle _ => some harnessErrorCode
  | .fault _ => none

/-- What the tests of a session need. -/
structure Plan where
  components : List String
  tool : Tool

namespace Config

/-- The tool that a configuration asks for, with what is noted about it. -/
def findTool (c : Config) (around : Surroundings) : Except Conclusion (List Note × Tool) :=
  match Catalogue.installed.lookup c.runner with
  | .error (.broken failure) => .error (.fault (.lookup (.broken failure)))
  | .error e => .error (.obstacle (.lookup e))
  | .ok usable => match usable.settings.configure c.runnerConfig with
    | .error (.flawed model issues) => .error (.obstacle (.settings model issues))
    | .error .overflow => .error (.fault .settings)
    | .ok configured => (configured.prepare around).mapError fun e ↦ .obstacle (.unavailable e)

/-- Looks for everything that the tests need, and notes what is done. -/
def plan (c : Config) (around : Surroundings) : List Note × Except Conclusion Plan :=
  match c.registry.list with
  | .error e => ([], .error (.obstacle (.registry e)))
  | .ok components =>
    let notes := [.info .program ("Components: " ++ ", ".intercalate components),
      .info .program ("Loading runner: " ++ c.runner)]
    match c.findTool around with
    | .error conclusion => (notes, .error conclusion)
    | .ok (more, tool) => (notes ++ more, .ok { components := components, tool := tool })

end Config

structure Session where
  journal : Journal
  conclusion : Conclusion

namespace Session

def journalOf (now : Float) (notes : List Note) : Journal :=
  notes.map fun n ↦ ⟨now, n⟩

/-- What is logged when a session ends. -/
def closingNotes : Conclusion → List Note
  | .report r => r.summaryLines.map (.info .program)
  | .obstacle o =>
    [.log { level := .error, channel := .program, text := "Cannot run tests: " ++ o.message }]
  | .fault _ => []

/-- Ends a session. -/
def conclude (journal : Journal) (now : Float) (conclusion : Conclusion) : Session where
  journal := journal ++ journalOf now (closingNotes conclusion)
  conclusion := conclusion

/-- Runs the tests of a configuration. -/
def ofConfig (c : Config) (around : Surroundings) (cancellation : Run.Cancellation) : Session :=
  let (notes, plan?) := c.plan around
  let before := journalOf 0.0 notes
  match plan? with
  | .error conclusion => conclude before 0.0 conclusion
  | .ok plan =>
    let setup : Run.Setup _ _ := { runner := plan.tool.runner around, policy := c.policy }
    let ended := Run.execute setup cancellation 0.0 0 plan.components
    conclude (before ++ ended.journal) ended.now (match ended.report with
      | .ok report => .report report
      | .error abort => .fault (.run abort))

/-- Runs the tests that a command line asks for. -/
def ofArguments (a : CommandLine.Arguments) (around : Surroundings)
    (cancellation : Run.Cancellation) : Session :=
  let (notes, c?) := a.configuration around.files
  let before := journalOf 0.0 notes
  match c? with
  | .error e =>
    conclude before 0.0 (if e.isReported then .obstacle (.options e) else .fault (.options e))
  | .ok c =>
    let session := ofConfig c around cancellation
    { session with journal := before ++ session.journal }

end Session

end Testbed
