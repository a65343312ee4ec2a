import Testbed.Proofs.Run.Notes
import Testbed.Proofs.Run.Reports

/-!
# Kinds of notes that a run keeps to

A run notes log lines, progress and what its invocations note.  Which notes an invocation makes may
depend on how it was started, so that only a part of what a runner could note occurs in a run.
-/

namespace Testbed

/-- A reply whose notes are of a kind, and with which an invocation goes on as one of a kind. -/
structure Reply.Confined {ι : Type} (allowed : Note → Prop) (kept : ι → Prop)
    (reply : Reply ι Ending) : Prop where
  notes : ∀ n ∈ reply.notes, allowed n
  yields : ∀ invocation, reply.next = .yields invocation → kept invocation
  waits : ∀ invocation keep alarms, reply.next = .waits invocation keep alarms → kept invocation

namespace Run

variable {σ ι : Type} {setup : Setup σ ι} {i : Nat} {c : String} {s s' : State σ ι}
  {allowed : Note → Prop} {kept : ι → Prop}

/-- The runner starts, with the policy at hand, only invocations that keep to notes of a kind. -/
structure Setup.Confines (setup : Setup σ ι) (allowed : Note → Prop) (kept : ι → Prop) : Prop where
  log (line : LogLine) : allowed (.log line)
  progress (event : Event) : allowed (.progress event)
  start (shared : σ) (now : Float) (component : String) :
    (setup.runner.start shared now component setup.policy.captureOutput).2.Confined allowed kept
  resume (shared : σ) (now : Float) (invocation : ι) (wake : Wake) : kept invocation →
    (setup.runner.resume shared now invocation wake).2.Confined allowed kept

theorem Setup.Confines.allows (confines : setup.Confines allowed kept) : setup.Allows allowed where
  log := confines.log
  progress := confines.progress
  start shared now component := (confines.start shared now component).notes

/-! ## The invocations of a run -/

/-- An invocation that waits is one of a kind. -/
def Slot.Keeps (kept : ι → Prop) : Slot ι → Prop
  | .running w => match w.stage with
    | .suspended invocation _ _ => kept invocation
    | _ => True
  | _ => True

theorem Slot.keeps_suspended {w : Worker ι} {invocation : ι} {awaits : List Nat} {signals : Signals}
    (hstage : w.stage = .suspended invocation awaits signals) :
    (Slot.running w).Keeps kept ↔ kept invocation := by
  rw [Slot.Keeps, hstage]

theorem Slot.Keeps.interrupted {slot : Slot ι} (h : slot.Keeps kept) :
    slot.interrupted.Keeps kept := by
  rcases slot with _ | ⟨_, _, _, _, _ | _ | _⟩ | _ <;> exact h

theorem Setup.Answers.confined (confines : setup.Confines allowed kept) {w : Worker ι}
    {reply : Reply ι Ending} (h : setup.Answers c w reply) (hw : (Slot.running w).Keeps kept) :
    reply.Confined allowed kept := by
  cases h with
  | starts shared now => exact confines.start shared now c
  | resumes shared now stage =>
    exact confines.resume shared now _ _ ((Slot.keeps_suspended stage).1 hw)

theorem Setup.Leads.keeps (confines : setup.Confines allowed kept) {now : Float} {w w' : Worker ι}
    {reply : Reply ι Ending} (h : setup.Leads now c w reply w')
    (hreply : reply.Confined allowed kept) : (Slot.running w').Keeps kept := by
  induction h with
  | yields next => exact hreply.yields _ next
  | waits next => exact hreply.waits _ _ _ next
  | interrupted | concludes => trivial
  | again _ _ _ _ _ _ ih => exact ih (confines.start _ _ _)

theorem Setup.Confines.keeps (confines : setup.Confines allowed kept) :
    setup.Keeps fun _ slot ↦ slot.Keeps kept where
  change c slot slot' h hs := by
    cases h with
    | launches => trivial
    | goes _ answers leads => exact leads.keeps confines (answers.confined confines hs)
    | rings alarm stage => exact (Slot.keeps_suspended stage).1 hs
    | expires => exact Slot.Keeps.interrupted hs
    | settles =>
      unfold Slot.settle
      split
      · trivial
      · exact hs
  closes c slot slot' h hs := by
    cases h with
    | interrupts => exact hs.interrupted
    | drains =>
      obtain hsame | ⟨o, hdrained, -⟩ := slot.drained_cases c
      · rwa [hsame]
      · rw [hdrained]
        trivial
    | skips => cases slot <;> exact hs

/-! ## Runs -/

theorem Grows.of_routine (confines : setup.Confines allowed kept) (h : Grows IsRoutine s s') :
    Grows allowed s s' :=
  h.mono fun n hn ↦ by
    obtain ⟨line, rfl⟩ | ⟨event, rfl⟩ := hn.cases
    · exact confines.log line
    · exact confines.progress event

theorem work_grows (quiet : setup.IsQuiet) (confines : setup.Confines allowed kept)
    (hs : s.All fun _ slot ↦ slot.Keeps kept) (i : Nat) : Grows allowed s (work setup i s) := by
  obtain hidle | ⟨c, w, reply, hplace, answers, hreplied⟩ := work_cases quiet i s
  · rw [hidle]
    exact .refl s
  · have hkept := hs _ (List.mem_of_getElem? hplace)
    exact hreplied.grows allowed confines.allows (answers.confined confines hkept).notes

theorem step_grows (quiet : setup.IsQuiet) (confines : setup.Confines allowed kept)
    (hs : s.All fun _ slot ↦ slot.Keeps kept) : Grows allowed s (step setup s) := by
  unfold step
  split
  · next t queue _ =>
    cases t with
    | work i => exact work_grows (s := { s with queue := queue }) quiet confines hs i
    | coordinate => exact .of_routine confines (coordinate_grows { s with queue := queue })
    | expire | ring | cancel | watch | notice =>
      refine .of_journal (handle_journal setup ?_ ?_ { s with queue := queue }) <;> nofun
  · exact .of_journal rfl

theorem steps_grows (quiet : setup.IsQuiet) (confines : setup.Confines allowed kept)
    (hs : s.All fun _ slot ↦ slot.Keeps kept) (n : Nat) : Grows allowed s (steps setup n s) := by
  have keeps := confines.keeps
  refine (steps_induction (P := fun t ↦ Grows allowed s t ∧ t.All fun _ slot ↦ slot.Keeps kept)
    (fun t _ h ↦ ⟨h.1.trans (step_grows quiet confines h.2), ?_⟩) ⟨.refl s, hs⟩ n).1
  exact step_all quiet keeps.change (fun _ ↦ keeps.closes) h.2

/-- A run keeps to the notes that its runner is confined to. -/
theorem execute_confined (quiet : setup.IsQuiet) (confines : setup.Confines allowed kept)
    (cancellation : Cancellation) (now : Float) (shared : σ) (components : List String) :
    ∀ e ∈ (execute setup cancellation now shared components).journal, allowed e.note := by
  have hbegin := confines.keeps.begin quiet (fun _ ↦ trivial) cancellation now shared components
  have hfill : Grows allowed (State.opening setup cancellation now shared components)
      (begin setup cancellation now shared components) :=
    .of_routine confines (fill_grows _)
  have hgrows := hfill.trans (steps_grows quiet confines hbegin
    (turnBound setup cancellation components))
  intro e he
  refine hgrows.forall_note (fun e he ↦ ?_) e (List.mem_reverse.1 he)
  rw [List.mem_singleton.1 he]
  exact confines.log _

end Run

end Testbed
