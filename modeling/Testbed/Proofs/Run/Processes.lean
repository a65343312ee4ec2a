import Testbed.Proofs.Run.Notes
import Testbed.Runner.Cargo
import Testbed.Runner.Command

/-!
# Processes of a run

An execution starts one process, passes on its output and asks it to end if it is interrupted.  It
gives the process up when the grace period is over or when it is interrupted again: in a run of a
tool no process is killed.  Only a termination that stands on its own kills.
-/

namespace Testbed

open Activity

/-- The notes of an execution: log lines about processes, output that is passed on, and requests to
end. -/
inductive Job.Execution.Remark : Note → Prop
  | log (level : Level) (text : String) : Remark (.log { level, channel := .process, text })
  | output (bytes : List UInt8) : Remark (.output bytes)
  | terminate : Remark .terminate

namespace Job.Execution

theorem readOn_notes (c : Child) (passOn : Bool) (read : List (List UInt8))
    (rest : List (Float × List UInt8)) : ∀ n ∈ (readOn c passOn read rest).notes, Remark n := by
  induction rest generalizing read with
  | nil => simp [readOn]
  | cons piece rest ih =>
    rw [readOn]
    split
    · split
      · simp
      · intro n hn
        obtain hn | hn := List.mem_append.1 hn
        · unfold passing at hn
          split at hn
          · obtain ⟨bytes, -, rfl⟩ := List.mem_map.1 hn
            exact .output bytes
          · cases hn
        · exact ih _ n hn
    · simp

theorem interrupt_notes (c : Child) : ∀ n ∈ (interrupt c).notes, Remark n := by
  unfold interrupt
  split
  · simp
  · intro n hn
    obtain rfl | rfl : n = terminatingNote c ∨ n = .terminate := by simpa using hn
    · exact .log _ _
    · exact .terminate

theorem start_notes (b : Behaviour) (launch : Launch) (passOn : Bool) :
    ∀ n ∈ (start b launch passOn).notes, Remark n ∨ n = .launch launch := by
  have hstarting {n : Note} {text : String} (hn : n ∈ [.debug .process text, .launch launch]) :
      Remark n ∨ n = .launch launch := by
    obtain rfl | rfl : n = .debug .process text ∨ n = .launch launch := by simpa using hn
    · exact .inl (.log _ _)
    · exact .inr rfl
  unfold start
  dsimp only
  split
  · exact fun n ↦ hstarting
  · intro n hn
    obtain hn | hn := List.mem_append.1 hn
    · exact hstarting hn
    · exact .inl (readOn_notes _ _ _ _ n hn)

theorem resume_notes (e : Execution) (wake : Wake) : ∀ n ∈ (e.resume wake).notes, Remark n := by
  cases e with
  | reading c passOn read bytes rest =>
    rw [resume]
    split
    · exact interrupt_notes _
    · exact readOn_notes _ _ _ _
  | exiting c output =>
    rw [resume]
    split
    · exact interrupt_notes _
    · split <;> simp
  | ending c => simp [resume]

end Job.Execution

namespace Tool

variable {t : Tool} {around : Surroundings}

/-- A tool that only logs something when its process has ended. -/
def LogsEnds (t : Tool) : Prop :=
  ∀ component code, ∀ n ∈ t.endNotes component code, ∃ line, n = .log line

theorem notesAfter_log (logs : t.LogsEnds) (component : String)
    (next : Next Job.Execution Job.Result) :
    ∀ n ∈ t.notesAfter component next, ∃ line, n = .log line := by
  unfold notesAfter
  split
  · exact logs component _
  · simp

/-- What a run of a tool notes about its processes. -/
theorem runner_notes (logs : t.LogsEnds) {setup : Run.Setup Nat Invocation}
    (hrunner : setup.runner = t.runner around) {n : Note} (hn : setup.Notes n) :
    Job.Execution.Remark n ∨ (∃ line, n = .log line) ∨ (∃ event, n = .progress event) ∨
      ∃ component, n = .launch (t.launch around component) := by
  cases hn with
  | log line => exact .inr (.inl ⟨line, rfl⟩)
  | progress event => exact .inr (.inr (.inl ⟨event, rfl⟩))
  | start started now component capture mem =>
    rw [hrunner] at mem
    obtain hn | hn := List.mem_append.1 mem
    · exact (Job.Execution.start_notes _ _ _ n hn).imp_right fun h ↦ .inr (.inr ⟨component, h⟩)
    · exact .inr (.inl (notesAfter_log logs component _ n hn))
  | resume started now invocation wake mem =>
    rw [hrunner] at mem
    obtain hn | hn := List.mem_append.1 mem
    · exact .inl (Job.Execution.resume_notes _ _ n hn)
    · exact .inr (.inl (notesAfter_log logs _ _ n hn))

/-- No process is killed in a run of a tool, however often it is interrupted. -/
theorem execute_kills_nothing (logs : t.LogsEnds) {setup : Run.Setup Nat Invocation}
    (hrunner : setup.runner = t.runner around) (cancellation : Run.Cancellation) (now : Float)
    (started : Nat) (components : List String) :
    ∀ e ∈ (Run.execute setup cancellation now started components).journal, e.note ≠ .kill := by
  intro e he hkill
  have hnotes := runner_notes logs hrunner (Run.execute_notes _ _ _ _ _ e he)
  rw [hkill] at hnotes
  obtain hremark | ⟨_, h⟩ | ⟨_, h⟩ | ⟨_, h⟩ := hnotes
  · cases hremark
  · cases h
  · cases h
  · cases h

end Tool

theorem Cargo.tool_logsEnds (c : Cargo) (executable : String) : (c.tool executable).LogsEnds := by
  simp [Tool.LogsEnds, Cargo.tool]

theorem Command.tool_logsEnds (c : Command) (executable : String) : (c.tool executable).LogsEnds := by
  simp [Tool.LogsEnds, Command.tool, Note.debug]

end Testbed
