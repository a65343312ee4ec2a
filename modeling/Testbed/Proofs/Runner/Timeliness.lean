import Testbed.Proofs.Run.Liveness
import Testbed.Proofs.Runner.Executions

/-!
# Timely runners

A rehearsed invocation and the execution of a process wait for nothing but their alarms.  If all their
waits are times that come, no run of theirs is ever stuck.
-/

namespace Testbed

open Run Clock

/-- A wait that does not end at once is a time to come. -/
theorem nonneg_of_not_le {delay : Float} (hnan : delay.isNaN = false) (h : ¬ delay ≤ 0) : 0 ≤ delay := by
  have hinstant := isInstant_of_not_le isInstant_zero h hnan
  rw [le_iff_tick isInstant_zero hinstant]
  exact (show tick 0 = 0 by decide +kernel) ▸ Nat.zero_le _

/-! ## Rehearsed invocations -/

/-- A cue whose waits are times. -/
structure Cue.IsTimely (cue : Cue) : Prop where
  delay : cue.delay.isNaN = false
  aftermath : ∀ after ∈ cue.aftermath, after.delay.isNaN = false

namespace Rehearsal

/-- An invocation whose waits are times. -/
def Fit : Invocation → List Nat → Prop
  | .waiting cue, _ => cue.IsTimely
  | .leaving _, _ => True

theorem sleep_stirs {alarm : Nat} {delay : Float} {invocation : Invocation}
    (hdelay : delay.isNaN = false) (hfit : ∀ awaits, Fit invocation awaits) :
    Reply.Stirs Fit { next := sleep alarm delay invocation } := by
  unfold sleep
  split
  · exact hfit []
  · next h => exact ⟨hfit _, List.cons_ne_nil _ _, by simpa using nonneg_of_not_le hdelay h⟩

end Rehearsal

open Rehearsal in
theorem Runner.rehearsed_restless {cue : String → Nat → Cue} (timely : ∀ c n, (cue c n).IsTimely) :
    (Runner.rehearsed cue).Restless Fit where
  start shared _ component _ := sleep_stirs (timely component _).delay fun _ ↦ timely component _
  resume shared now invocation awaits wake hfit _ _ := by
    change (Rehearsal.resume shared invocation wake).2.Stirs Fit
    unfold Rehearsal.resume
    split
    · trivial
    · next cue _ =>
      split
      · trivial
      · next after hafter =>
        split
        · trivial
        · exact sleep_stirs (hfit.aftermath after hafter) fun _ ↦ trivial
    · trivial
    · trivial

/-! ## Executions of processes -/

namespace Job

/-- A process that writes and exits at times, on its own or asked to. -/
structure Behaviour.IsTimely (b : Behaviour) : Prop where
  output : ∀ piece ∈ b.output, piece.1.isNaN = false
  exit : b.exitDelay.isNaN = false
  terminate : ∀ delay ∈ b.onTerminate, delay.isNaN = false

namespace Child

variable {c : Child}

/-- Alarms that are set for times to come. -/
def AreDue (alarms : List (Nat × Float)) : Prop :=
  ∀ alarm ∈ alarms, 0 ≤ alarm.2

theorem exitAfter_due {delay : Float} (hdelay : delay.isNaN = false) (e : Exit) :
    AreDue (c.exitAfter delay e).2 := by
  unfold exitAfter
  split
  · exact nofun
  · next h =>
    intro alarm halarm
    rw [List.mem_singleton.1 halarm]
    exact nonneg_of_not_le hdelay h

theorem await_due (h : c.behaviour.exitDelay.isNaN = false) : AreDue c.await.2 := by
  unfold await
  split
  · exact nofun
  · dsimp only
    split
    · exact nofun
    · exact exitAfter_due h .own

theorem exit_frame (c : Child) (e : Exit) :
    (c.exit e).behaviour = c.behaviour ∧ (c.exit e).awaited = c.awaited ∧ (c.exit e).asked = c.asked := by
  unfold exit
  split <;> exact ⟨rfl, rfl, rfl⟩

theorem exitAfter_frame (delay : Float) (e : Exit) :
    (c.exitAfter delay e).1.behaviour = c.behaviour := by
  unfold exitAfter
  split
  · exact (c.exit_frame e).1
  · rfl

theorem terminate_frame (c : Child) : c.terminate.1.behaviour = c.behaviour := by
  unfold terminate signalled
  repeat' split
  all_goals first | rfl | exact exitAfter_frame _ _

theorem terminate_due (timely : c.behaviour.IsTimely) : AreDue c.terminate.2 := by
  unfold terminate signalled
  split
  · exact nofun
  · split
    · exact nofun
    · dsimp only
      split
      · exact nofun
      · next delay hdelay => exact exitAfter_due (timely.terminate delay hdelay) .terminated

theorem exit_isSome (c : Child) (e : Exit) : (c.exit e).code.isSome = true := by
  unfold exit
  split
  · rfl
  · next h => rw [h]; rfl

/-- A process that nobody has asked to end exits on its own. -/
theorem await_cases (hawaited : c.awaited = false) (hasked : c.asked = false) :
    c.await.1.code.isSome = true ∨ c.await.1.behaviour = c.behaviour ∧ c.await.1.code = none ∧
      c.await.2 = [((Alarm.exit .own).number, c.behaviour.exitDelay)] := by
  cases hcode : c.code with
  | some code => simp [await, hcode]
  | none =>
    simp only [await, hawaited, hasked, hcode, exitAfter, Option.isSome_none, Bool.or_self,
      Bool.false_eq_true, if_false]
    split
    · exact .inl (exit_isSome _ .own)
    · exact .inr ⟨rfl, rfl, rfl⟩

/-- Hearing of a process leaves open only how it ended. -/
theorem hear_frame (c : Child) (rung : List Nat) : (c.hear rung).behaviour = c.behaviour ∧
    (c.hear rung).awaited = c.awaited ∧ (c.hear rung).asked = c.asked := by
  rw [hear]
  induction rung.filterMap exit? generalizing c with
  | nil => exact ⟨rfl, rfl, rfl⟩
  | cons e exits ih =>
    obtain ⟨hbehaviour, hawaited, hasked⟩ := ih (c.exit e)
    obtain ⟨hbehaviour', hawaited', hasked'⟩ := c.exit_frame e
    exact ⟨hbehaviour.trans hbehaviour', hawaited.trans hawaited', hasked.trans hasked'⟩

theorem exits_isSome (h : c.code.isSome = true) (exits : List Exit) :
    (exits.foldl exit c).code.isSome = true := by
  induction exits generalizing c with
  | nil => exact h
  | cons e exits ih => exact ih (c.exit_isSome e)

/-- A process has exited when an exit of it is heard of. -/
theorem hear_isSome {rung : List Nat} {e : Exit} (h : (Alarm.exit e).number ∈ rung) :
    (c.hear rung).code.isSome = true := by
  have hexit : e ∈ rung.filterMap exit? := List.mem_filterMap.2 ⟨_, h, by cases e <;> rfl⟩
  obtain ⟨before, after, hexits⟩ := List.append_of_mem hexit
  rw [hear, hexits, List.foldl_append, List.foldl_cons]
  exact exits_isSome (exit_isSome _ e) after

end Child

namespace Execution

/-- An execution that still reads has not awaited the exit, nor asked for it; one that waits for the
exit waits for its alarm. -/
def Fit : Execution → List Nat → Prop
  | .reading c _ _ _ rest, _ => c.behaviour.IsTimely ∧ c.awaited = false ∧ c.asked = false ∧
      ∀ piece ∈ rest, piece.1.isNaN = false
  | .exiting c _, awaits => c.behaviour.IsTimely ∧ awaits = [(Alarm.exit .own).number]
  | .ending _, _ => True

/-- What comes next does not wait for what never happens. -/
def Stirs : Activity.Next Execution Result → Prop
  | .ends _ => True
  | .yields e => e.Fit []
  | .waits e keep alarms =>
    e.Fit (keep ++ alarms.map (·.1)) ∧ alarms ≠ [] ∧ Child.AreDue alarms

theorem awaitExit_stirs {c : Child} (timely : c.behaviour.IsTimely) (hawaited : c.awaited = false)
    (hasked : c.asked = false) (read : List (List UInt8)) : Stirs (awaitExit c read) := by
  have hdue := Child.await_due (c := c) timely.exit
  rw [awaitExit]
  dsimp only
  obtain hcode | ⟨hbehaviour, hcode, halarms⟩ := Child.await_cases hawaited hasked
  · obtain ⟨code, hcode⟩ := Option.isSome_iff_exists.1 hcode
    rw [hcode]
    trivial
  · rw [hcode]
    rw [halarms] at hdue ⊢
    exact ⟨⟨hbehaviour ▸ timely, rfl⟩, List.cons_ne_nil _ _, hdue⟩

theorem readOn_stirs {c : Child} (timely : c.behaviour.IsTimely) (hawaited : c.awaited = false)
    (hasked : c.asked = false) (passOn : Bool) (read : List (List UInt8))
    {rest : List (Float × List UInt8)} (hrest : ∀ piece ∈ rest, piece.1.isNaN = false) :
    Stirs (readOn c passOn read rest).next := by
  induction rest generalizing read with
  | nil => exact awaitExit_stirs timely hawaited hasked read
  | cons piece rest ih =>
    obtain ⟨delay, bytes⟩ := piece
    obtain ⟨hdelay, hrest⟩ := List.forall_mem_cons.1 hrest
    unfold readOn
    split
    · split
      · exact awaitExit_stirs timely hawaited hasked read
      · exact ih (bytes :: read) hrest
    · next h =>
      refine ⟨⟨timely, hawaited, hasked, hrest⟩, List.cons_ne_nil _ _, fun alarm halarm ↦ ?_⟩
      rw [List.mem_singleton.1 halarm]
      exact nonneg_of_not_le hdelay h

theorem start_stirs {b : Behaviour} (timely : b.IsTimely) (launch : Launch) (passOn : Bool) :
    Stirs (start b launch passOn).next := by
  unfold start
  dsimp only
  split
  · trivial
  · refine readOn_stirs timely rfl rfl passOn [] fun piece hpiece ↦ ?_
    split at hpiece
    · exact timely.output piece hpiece
    · cases hpiece

/-- The grace period ends, whatever the process makes of the signal. -/
theorem interrupt_stirs {c : Child} (timely : c.behaviour.IsTimely) : Stirs (interrupt c).next := by
  unfold interrupt
  split
  · trivial
  · dsimp only
    split
    · trivial
    · refine ⟨trivial, ?_, fun alarm halarm ↦ ?_⟩
      · rw [askToEnd]
        exact List.append_ne_nil_of_right_ne_nil _ (List.cons_ne_nil _ _)
      · have hawait := Child.await_due (c := c.terminate.1) (by rw [c.terminate_frame]; exact timely.exit)
        obtain h | h := List.mem_append.1 halarm
        · exact Child.terminate_due timely alarm h
        · obtain rfl | h := List.mem_cons.1 h
          · exact show (0 : Float) ≤ gracePeriod by decide +kernel
          · exact hawait alarm h

theorem resume_stirs {e : Execution} {awaits : List Nat} {wake : Wake} (hfit : e.Fit awaits)
    (hrung : ∀ alarm ∈ wake.rung, alarm ∈ awaits)
    (hwoken : wake.rung ≠ [] ∨ wake.interrupted = true ∨ awaits = []) :
    Stirs (e.resume wake).next := by
  cases e with
  | reading c passOn read bytes rest =>
    obtain ⟨timely, hawaited, hasked, hrest⟩ := hfit
    obtain ⟨hbehaviour, hawaited', hasked'⟩ := c.hear_frame wake.rung
    rw [← hbehaviour] at timely
    rw [resume]
    split
    · exact interrupt_stirs timely
    · exact readOn_stirs timely (hawaited'.trans hawaited) (hasked'.trans hasked) passOn read
        (List.forall_mem_cons.2 ⟨show (0.0 : Float).isNaN = false by decide +kernel, hrest⟩)
  | exiting c output =>
    obtain ⟨timely, rfl⟩ := hfit
    rw [← (c.hear_frame wake.rung).1] at timely
    rw [resume]
    split
    · exact interrupt_stirs timely
    · next hcalm =>
      have hne : wake.rung ≠ [] := hwoken.resolve_right (by simp [hcalm])
      obtain ⟨alarm, halarm⟩ := List.exists_mem_of_ne_nil _ hne
      obtain rfl := List.mem_singleton.1 (hrung alarm halarm)
      have hheard := Child.hear_isSome (c := c) halarm
      obtain ⟨code, hcode⟩ := Option.isSome_iff_exists.1 hheard
      rw [hcode]
      trivial
  | ending c => trivial

end Execution

end Job

/-- Surroundings whose processes write and exit at times. -/
def Surroundings.IsTimely (around : Surroundings) : Prop :=
  ∀ n, (around.behaviour n).IsTimely

namespace Tool

theorem reply_stirs {t : Tool} {component : String} {capture : Bool}
    {r : Reply Job.Execution Job.Result} (h : Job.Execution.Stirs r.next) :
    (t.reply component capture r).Stirs fun i ↦ i.execution.Fit := by
  obtain ⟨notes, next⟩ := r
  cases next <;> exact h

theorem runner_restless (t : Tool) {around : Surroundings} (timely : around.IsTimely) :
    (t.runner around).Restless fun i ↦ i.execution.Fit where
  start n _ _ _ := reply_stirs (Job.Execution.start_stirs (timely n) _ _)
  resume _ _ _ _ _ hfit hrung hwoken := reply_stirs (Job.Execution.resume_stirs hfit hrung hwoken)

end Tool

end Testbed
