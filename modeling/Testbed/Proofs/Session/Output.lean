import Testbed.Proofs.Session.Codes

/-!
# What reaches the standard output

Whoever asks for a document finds it at the end of the standard output, and before it whatever the
processes wrote that was passed on.  Nothing is passed on if the output of the runner is captured;
then the standard output is the document and nothing else.
-/

namespace Testbed

/-- The output of processes that is passed on. -/
def Journal.passedOn (j : Journal) : List UInt8 :=
  j.flatMap fun e ↦ match e.note with
    | .output bytes => bytes
    | _ => []

theorem Journal.passedOn_eq_nil {j : Journal} (h : ∀ e ∈ j, ∀ bytes, e.note ≠ .output bytes) :
    j.passedOn = [] := by
  refine List.flatMap_eq_nil_iff.2 fun e he ↦ ?_
  split
  · next bytes hnote => exact absurd hnote (h e he bytes)
  · rfl

theorem Note.IsLine.ne_output {n : Note} (h : n.IsLine) (bytes : List UInt8) : n ≠ .output bytes := by
  obtain ⟨level, channel, text⟩ := h
  exact nofun

namespace Session

variable {c : Config} {around : Surroundings} {cancellation : Run.Cancellation} {d : Display}
  {r : Report}

theorem journalOf_ne_output {notes : List Note} (h : ∀ n ∈ notes, n.IsLine) (now : Float) :
    ∀ e ∈ journalOf now notes, ∀ bytes, e.note ≠ .output bytes :=
  fun e he ↦ (journalOf_isLine h now e he).ne_output

theorem closingNotes_isLine (conclusion : Conclusion) : ∀ n ∈ closingNotes conclusion, n.IsLine := by
  intro n hn
  cases conclusion with
  | report r =>
    obtain ⟨line, -, rfl⟩ := List.mem_map.1 hn
    exact .mk _ _ _
  | obstacle o => exact List.mem_singleton.1 hn ▸ .mk _ _ _
  | fault f => cases hn

/-- With captured output a session passes nothing on. -/
theorem ofConfig_passedOn (hcapture : c.policy.captureOutput = true) (around : Surroundings)
    (cancellation : Run.Cancellation) : (ofConfig c around cancellation).journal.passedOn = [] := by
  refine Journal.passedOn_eq_nil ?_
  by_cases h : c.Unready around
  · exact fun e he ↦ ((ofConfig_unready h cancellation).2 e he).ne_output
  · obtain ⟨notes, configured, executable, hplan, hnotes⟩ := Config.plan_of_ready h
    let setup : Run.Setup Nat Tool.Invocation :=
      { runner := (configured.tool executable).runner around, policy := c.policy }
    have hconfines : setup.Confines (fun n ↦ ∀ bytes, n ≠ .output bytes)
        fun i ↦ i.capture = true ∧ i.execution.IsSilent :=
      Tool.setup_confines (configured.tool_logsEnds executable) rfl hcapture
    rw [ofConfig, hplan]
    intro e he
    obtain he | he := List.mem_append.1 he
    · obtain he | he := List.mem_append.1 he
      · exact journalOf_ne_output hnotes _ e he
      · exact Run.execute_confined (Run.isQuiet_default _ _) hconfines _ _ _ _ e he
    · exact journalOf_ne_output (closingNotes_isLine _) _ e he

/-- Where a document is asked for, the output that is passed on precedes it. -/
theorem outputBytes_document {s : Session} (hjson : d.format = some .json)
    (hr : s.conclusion = .report r) : s.outputBytes d =
      s.journal.passedOn ++ Text.encode (Data.Json.indented.write r.document ++ "\n") := by
  have hnotes (e : Entry) : d.outputBytes e.note = match e.note with
      | .output bytes => bytes
      | _ => [] := by
    cases e.note <;> simp [Display.outputBytes, hjson]
  rw [outputBytes, hr, Journal.passedOn]
  simp only [hnotes, Display.closingText, Display.reportText, hjson, if_true]

/-- With captured output, what reaches the standard output is the document. -/
theorem ofConfig_outputBytes_document (hcapture : c.policy.captureOutput = true)
    (hjson : d.format = some .json) (hr : (ofConfig c around cancellation).conclusion = .report r) :
    (ofConfig c around cancellation).outputBytes d =
      Text.encode (Data.Json.indented.write r.document ++ "\n") := by
  rw [outputBytes_document hjson hr, ofConfig_passedOn hcapture, List.nil_append]

/-- Without it, a document comes after what the processes wrote. -/
example : (ofConfig { Config.crashing with policy := { captureOutput := false } }
    { Surroundings.crashing with behaviour _ := { output := [(0.0, [104, 105, 10])] } }
      .never).journal.passedOn = [104, 105, 10] := by
  decide +kernel

end Session

end Testbed
