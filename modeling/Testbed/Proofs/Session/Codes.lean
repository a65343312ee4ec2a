import Testbed.Proofs.CommandLine.Options
import Testbed.Proofs.Run.Runs
import Testbed.Proofs.Runner.Executions
import Testbed.Proofs.Runner.Readiness
import Testbed.Session.Streams

/-!
# Codes of sessions

A session that comes to an end ends with a code, and the code tells what became of the tests: they
could not be run at all, all components passed, or not all of them did.  Nothing that happens to a
component in the course of the tests makes a session end as one that could not run any.
-/

namespace Testbed

/-- The tests of a configuration come to an end, if they are run at all. -/
def Config.Ends (c : Config) (around : Surroundings) (cancellation : Run.Cancellation) : Prop :=
  ∀ plan, (c.plan around).2 = .ok plan →
    (Run.final { runner := plan.tool.runner around, policy := c.policy } cancellation 0.0 0
      plan.components).isDone = true

/-- The turns that the tests are granted are enough for them to come to an end, unless they never
do. -/
theorem Config.ends_iff {c : Config} {around : Surroundings} (bounded : around.IsBounded)
    (cancellation : Run.Cancellation) :
    c.Ends around cancellation ↔ ∀ plan, (c.plan around).2 = .ok plan → ∃ n,
      (Run.steps { runner := plan.tool.runner around, policy := c.policy } n
        (Run.begin { runner := plan.tool.runner around, policy := c.policy } cancellation 0.0 0
          plan.components)).isDone = true :=
  forall_congr' fun plan ↦ imp_congr_right fun _ ↦
    Run.final_isDone_iff (Run.isQuiet_default _ _) (plan.tool.runner_frugal bounded)

/-- A session of which nothing is told but by lines of the log. -/
def Session.OnlyLogs (s : Session) : Prop :=
  ∀ e ∈ s.journal, e.note.IsLine

namespace Report

variable {r : Report}

theorem exitCode_eq_zero_iff : r.exitCode = 0 ↔ r.succeeded = true := by
  rw [exitCode, verdict]
  cases r.succeeded <;> simp [Verdict.exitCode]

theorem exitCode_eq_one_iff : r.exitCode = 1 ↔ r.succeeded = false := by
  rw [exitCode, verdict]
  cases r.succeeded <;> simp [Verdict.exitCode]

theorem exitCode_ne_two (r : Report) : r.exitCode ≠ 2 := by
  rw [exitCode, verdict]
  cases r.succeeded <;> simp [Verdict.exitCode]

/-- A report on components that there are is a success exactly if all of them passed. -/
theorem succeeded_iff_of_ne_nil (h : r.outcomes ≠ []) :
    r.succeeded = true ↔ ∀ o ∈ r.outcomes, o.status = .passed :=
  succeeded_iff.trans (and_iff_right h)

end Report

namespace Session

variable {c : Config} {around : Surroundings} {cancellation : Run.Cancellation} {s : Session}

/-! ## Sessions that cannot run any tests -/

theorem OnlyLogs.no_launch (h : s.OnlyLogs) : ∀ e ∈ s.journal, ∀ launch, e.note ≠ .launch launch := by
  intro e he launch hlaunch
  have hline := h e he
  rw [hlaunch] at hline
  cases hline

theorem OnlyLogs.no_failure (h : s.OnlyLogs) :
    ∀ e ∈ s.journal, ∀ line, e.note = .log line → line.trace = none := by
  intro e he line hnote
  have hline := h e he
  rw [hnote] at hline
  cases hline
  rfl

theorem OnlyLogs.events (h : s.OnlyLogs) : s.journal.events = [] := by
  refine List.filterMap_eq_nil_iff.2 fun e he ↦ ?_
  obtain ⟨time, note⟩ := e
  obtain ⟨level, channel, text⟩ := h _ he
  rfl

theorem OnlyLogs.outputBytes (h : s.OnlyLogs) {o : Obstacle} (ho : s.conclusion = .obstacle o)
    (d : Display) : s.outputBytes d = [] := by
  have hnotes : s.journal.flatMap (fun e ↦ d.outputBytes e.note) = [] := by
    refine List.flatMap_eq_nil_iff.2 fun e he ↦ ?_
    obtain ⟨time, note⟩ := e
    obtain ⟨level, channel, text⟩ := h _ he
    rfl
  rw [Session.outputBytes, hnotes, ho]
  simp [Display.closingText, Text.encode]

theorem journalOf_isLine {notes : List Note} (h : ∀ n ∈ notes, n.IsLine) (now : Float) :
    ∀ e ∈ journalOf now notes, e.note.IsLine := by
  intro e he
  obtain ⟨n, hn, rfl⟩ := List.mem_map.1 he
  exact h n hn

theorem ofConfig_unready (h : c.Unready around) (cancellation : Run.Cancellation) :
    (∃ o, (ofConfig c around cancellation).conclusion = .obstacle o) ∧
      (ofConfig c around cancellation).OnlyLogs := by
  obtain ⟨notes, o, hplan, hnotes⟩ := h.plan
  have heq : ofConfig c around cancellation = conclude (journalOf 0.0 notes) 0.0 (.obstacle o) := by
    rw [ofConfig, hplan]
  rw [heq]
  refine ⟨⟨o, rfl⟩, fun e he ↦ ?_⟩
  obtain he | he := List.mem_append.1 he
  · exact journalOf_isLine hnotes 0.0 e he
  · refine journalOf_isLine (fun n hn ↦ ?_) 0.0 e he
    exact List.mem_singleton.1 hn ▸ .mk _ _ _

/-! ## Sessions that run tests -/

theorem ofConfig_ready (h : ¬ c.Unready around) (hends : c.Ends around cancellation) :
    ∃ r, (ofConfig c around cancellation).conclusion = .report r ∧
      r.outcomes.map (·.component) = c.components := by
  obtain ⟨notes, configured, executable, hplan, -⟩ := Config.plan_of_ready h
  have hdone := hends _ (congrArg Prod.snd hplan)
  obtain ⟨r, hr, hcomponents⟩ := Run.execute_reports
    (Run.isQuiet_default ((configured.tool executable).runner around) c.policy)
    ((configured.tool executable).runner_steadfast around) hdone
  refine ⟨r, ?_, hcomponents⟩
  rw [ofConfig, hplan]
  dsimp only
  rw [hr]
  rfl

/-- No configuration ends in a fault. -/
theorem ofConfig_ne_fault (c : Config) (around : Surroundings) (cancellation : Run.Cancellation)
    (f : Fault) : (ofConfig c around cancellation).conclusion ≠ .fault f := by
  by_cases h : c.Unready around
  · obtain ⟨⟨o, ho⟩, -⟩ := ofConfig_unready h cancellation
    rw [ho]
    exact nofun
  · obtain ⟨notes, configured, executable, hplan, -⟩ := Config.plan_of_ready h
    have hreport := Run.execute_ne_error
      (Run.isQuiet_default ((configured.tool executable).runner around) c.policy)
      ((configured.tool executable).runner_steadfast around) cancellation 0.0 0 c.components
    rw [ofConfig, hplan]
    dsimp only
    cases hr : (Run.execute { runner := (configured.tool executable).runner around, policy := c.policy }
        cancellation 0.0 0 c.components).report with
    | ok r => exact nofun
    | error abort => exact absurd hr (hreport abort)

/-- A session ends in a fault exactly if the options or the file fail with an error that is not
reported. -/
theorem ofArguments_fault_iff (a : CommandLine.Arguments) (around : Surroundings)
    (cancellation : Run.Cancellation) :
    (∃ f, (ofArguments a around cancellation).conclusion = .fault f) ↔
      CommandLine.Arguments.FailsUnreported (a.configuration around.files).2 := by
  rw [ofArguments]
  obtain ⟨notes, e | c⟩ := a.configuration around.files
  · rw [CommandLine.Arguments.failsUnreported_error]
    cases he : e.isReported <;> simp [he, conclude]
  · simpa using ofConfig_ne_fault c around cancellation

/-- The code of a session is 2 exactly if something that its tests need is missing; then no process
was started, no failure of a runner was logged, no progress was told of, and nothing was written to
the standard output.  Otherwise there is an outcome for each component, and the code is 0 exactly if
all of them passed and 1 exactly if one did not. -/
theorem ofConfig_exitCode (hends : c.Ends around cancellation) :
    ∃ code, (ofConfig c around cancellation).conclusion.exitCode? = some code ∧
      (code = 2 ↔ c.Unready around) ∧
      (code = 2 → (∀ e ∈ (ofConfig c around cancellation).journal, ∀ launch, e.note ≠ .launch launch) ∧
        (∀ e ∈ (ofConfig c around cancellation).journal, ∀ line, e.note = .log line →
          line.trace = none) ∧
        (ofConfig c around cancellation).journal.events = [] ∧
        ∀ d : Display, (ofConfig c around cancellation).outputBytes d = []) ∧
      (code ≠ 2 → ∃ r, (ofConfig c around cancellation).conclusion = .report r ∧
        r.outcomes.map (·.component) = c.components ∧
        (code = 0 ↔ ∀ o ∈ r.outcomes, o.status = .passed) ∧
        (code = 1 ↔ ∃ o ∈ r.outcomes, o.status ≠ .passed)) := by
  by_cases h : c.Unready around
  · obtain ⟨⟨o, ho⟩, hlogs⟩ := ofConfig_unready h cancellation
    refine ⟨2, by rw [ho]; rfl, iff_of_true rfl h, fun _ ↦ ?_, fun hne ↦ absurd rfl hne⟩
    exact ⟨hlogs.no_launch, hlogs.no_failure, hlogs.events, hlogs.outputBytes ho⟩
  · obtain ⟨r, hr, hcomponents⟩ := ofConfig_ready h hends
    have hne : r.outcomes ≠ [] := by
      intro hnil
      rw [hnil] at hcomponents
      exact h (.unlistable (.empty hcomponents.symm))
    refine ⟨r.exitCode, by rw [hr]; rfl, iff_of_false r.exitCode_ne_two h,
      fun htwo ↦ absurd htwo r.exitCode_ne_two, fun _ ↦ ⟨r, hr, hcomponents, ?_, ?_⟩⟩
    · exact Report.exitCode_eq_zero_iff.trans (Report.succeeded_iff_of_ne_nil hne)
    · rw [Report.exitCode_eq_one_iff, ← Bool.not_eq_true, Report.succeeded_iff_of_ne_nil hne]
      push Not
      rfl

end Session

/-- A command that no process can be started for. -/
def Config.crashing : Config :=
  { Config.default with
    runner := "command"
    runnerConfig := [("command", .list [.text "tool"])]
    components := ["alpha"] }

def Surroundings.crashing : Surroundings where
  files := { file? _ := none, isDirectory _ := false }
  environment := []
  program name := if name = "tool" then some "/bin/tool" else none
  behaviour _ := { refusal := some { kind := "HarnessError", text := "no device" } }
  pieces := 0

/-- A harness error that a runner raises is the failure of a component. -/
theorem Session.ofConfig_exitCode_crashing :
    Config.crashing.Ends .crashing .never ∧
      ∃ r, (ofConfig .crashing .crashing .never).conclusion = .report r ∧
        r.outcomes.map (·.component) = ["alpha"] ∧ ∃ o ∈ r.outcomes, o.status ≠ .passed := by
  have hends : Config.crashing.Ends .crashing .never := by
    have hdone : (match (Config.crashing.plan .crashing).2 with
        | .ok plan => (Run.final { runner := plan.tool.runner .crashing, policy := {} } .never 0.0 0
            plan.components).isDone
        | .error _ => true) = true := by
      decide +kernel
    intro plan hplan
    rwa [hplan] at hdone
  have hone : (ofConfig .crashing .crashing .never).conclusion.exitCode? = some 1 := by decide +kernel
  obtain ⟨code, hcode, -, -, htested⟩ := ofConfig_exitCode hends
  obtain rfl : 1 = code := Option.some_inj.1 (hone.symm.trans hcode)
  obtain ⟨r, hr, hcomponents, -, hfailed⟩ := htested (by decide)
  exact ⟨hends, r, hr, hcomponents, hfailed.1 rfl⟩

end Testbed
