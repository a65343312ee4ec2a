import Testbed.Proofs.Run.Confinement
import Testbed.Proofs.Run.Potential
import Testbed.Proofs.Run.Processes

/-!
# Executions in a run

An execution is given up only when it is interrupted, and passes on output only if it was started
without the output being captured.  So a run of a tool ends in a report, and with captured output
nothing that its processes write leaves the run but in the diagnostics.  How often an execution waits
is bounded by the pieces of output of its process.
-/

namespace Testbed

open Activity

namespace Job.Execution

/-! ## What an execution is given up for -/

/-- An execution that is about to be given up. -/
inductive IsEnding : Execution → Prop
  | ending (child : Child) : IsEnding (.ending child)

/-- An execution is given up, now or next. -/
inductive GivesUp : Next Execution Result → Prop
  | ends : GivesUp (.ends .interrupted)
  | yields {e : Execution} (ending : e.IsEnding) : GivesUp (.yields e)
  | waits {e : Execution} (keep : List Nat) (alarms : List (Nat × Float)) (ending : e.IsEnding) :
    GivesUp (.waits e keep alarms)

theorem awaitExit_not_givesUp (c : Child) (read : List (List UInt8)) :
    ¬GivesUp (awaitExit c read) := by
  unfold awaitExit
  dsimp only
  split
  · exact nofun
  · rintro (_ | _ | ⟨-, -, h⟩)
    cases h

theorem readOn_not_givesUp (c : Child) (passOn : Bool) (read : List (List UInt8))
    (rest : List (Float × List UInt8)) : ¬GivesUp (readOn c passOn read rest).next := by
  induction rest generalizing read with
  | nil => exact awaitExit_not_givesUp c read
  | cons piece rest ih =>
    rw [readOn]
    split
    · split
      · exact awaitExit_not_givesUp c read
      · exact ih _
    · rintro (_ | _ | ⟨-, -, h⟩)
      cases h

theorem start_not_givesUp (b : Behaviour) (launch : Launch) (passOn : Bool) :
    ¬GivesUp (start b launch passOn).next := by
  unfold start
  dsimp only
  split
  · exact nofun
  · exact readOn_not_givesUp _ _ _ _

theorem resume_givesUp {e : Execution} {wake : Wake} (h : GivesUp (e.resume wake).next) :
    e.IsEnding ∨ wake.interrupted = true := by
  cases e with
  | reading c passOn read bytes rest =>
    rw [resume] at h
    split at h
    · next hinterrupted => exact .inr hinterrupted
    · exact absurd h (readOn_not_givesUp _ _ _ _)
  | exiting c output =>
    rw [resume] at h
    split at h
    · next hinterrupted => exact .inr hinterrupted
    · split at h
      · cases h
      · rcases h with _ | _ | ⟨-, -, h⟩
        cases h
  | ending c => exact .inl (.ending c)

/-! ## What an execution passes on -/

/-- An execution that keeps its output to itself. -/
def IsSilent : Execution → Prop
  | .reading _ passOn _ _ _ => passOn = false
  | _ => True

/-- A reply that passes nothing on, now or later. -/
structure Withholds (reply : Reply Execution Result) : Prop where
  notes : ∀ n ∈ reply.notes, ∀ bytes, n ≠ .output bytes
  yields : ∀ e, reply.next = .yields e → e.IsSilent
  waits : ∀ e keep alarms, reply.next = .waits e keep alarms → e.IsSilent

theorem Withholds.of_ends {reply : Reply Execution Result} {result : Result}
    (hnext : reply.next = .ends result) (hnotes : ∀ n ∈ reply.notes, ∀ bytes, n ≠ .output bytes) :
    Withholds reply where
  notes := hnotes
  yields e h := by cases hnext.symm.trans h
  waits e keep alarms h := by cases hnext.symm.trans h

theorem Withholds.of_waits {reply : Reply Execution Result} {e : Execution} {keep : List Nat}
    {alarms : List (Nat × Float)} (hnext : reply.next = .waits e keep alarms)
    (hnotes : ∀ n ∈ reply.notes, ∀ bytes, n ≠ .output bytes) (silent : e.IsSilent) :
    Withholds reply where
  notes := hnotes
  yields e h := by cases hnext.symm.trans h
  waits e' keep alarms h := by
    cases hnext.symm.trans h
    exact silent

theorem awaitExit_withholds (c : Child) (read : List (List UInt8)) :
    Withholds { next := awaitExit c read } := by
  unfold awaitExit
  dsimp only
  split
  · exact .of_ends rfl (by simp)
  · exact .of_waits rfl (by simp) trivial

theorem readOn_withholds (c : Child) (read : List (List UInt8))
    (rest : List (Float × List UInt8)) : Withholds (readOn c false read rest) := by
  induction rest generalizing read with
  | nil => exact awaitExit_withholds c read
  | cons piece rest ih =>
    rw [readOn]
    split
    · split
      · exact awaitExit_withholds c read
      · exact ih _
    · exact .of_waits rfl (by simp) rfl

theorem start_withholds (b : Behaviour) (launch : Launch) : Withholds (start b launch false) := by
  have hstarting {text : String} : ∀ n ∈ [Note.debug .process text, .launch launch],
      ∀ bytes : List UInt8, n ≠ .output bytes := by
    simp [Note.debug]
  unfold start
  dsimp only
  split
  · exact .of_ends rfl hstarting
  · obtain ⟨notes, yields, waits⟩ :=
      readOn_withholds (.start b) [] (if b.piped = true then b.output else [])
    exact ⟨fun n hn ↦ (List.mem_append.1 hn).elim (hstarting n) (notes n), yields, waits⟩

theorem interrupt_withholds (c : Child) : Withholds (interrupt c) := by
  have hnotes : ∀ n ∈ [terminatingNote c, .terminate], ∀ bytes : List UInt8, n ≠ .output bytes := by
    simp [terminatingNote, Note.info]
  unfold interrupt
  split
  · exact .of_ends rfl (by simp)
  · dsimp only
    split
    · exact .of_ends rfl hnotes
    · exact .of_waits rfl hnotes trivial

theorem resume_withholds {e : Execution} (silent : e.IsSilent) (wake : Wake) :
    Withholds (e.resume wake) := by
  cases e with
  | reading c passOn read bytes rest =>
    obtain rfl : passOn = false := silent
    rw [resume]
    split
    · exact interrupt_withholds _
    · exact readOn_withholds _ _ _
  | exiting c output =>
    rw [resume]
    split
    · exact interrupt_withholds _
    · split
      · exact .of_ends rfl (by simp)
      · exact .of_waits rfl (by simp) trivial
  | ending c => exact .of_ends rfl (by simp [resume])

/-! ## How often an execution waits -/

/-- A bound on the alarms that an execution may still set. -/
def budget : Execution → Nat
  | .reading _ _ _ _ rest => rest.length + 4
  | .exiting _ _ => 3
  | .ending _ => 0

theorem length_exitAfter_le (c : Child) (delay : Float) (e : Exit) :
    (c.exitAfter delay e).2.length ≤ 1 := by
  unfold Child.exitAfter
  split
  · exact Nat.zero_le _
  · exact le_rfl

theorem length_await_le (c : Child) : c.await.2.length ≤ 1 := by
  unfold Child.await
  split
  · exact Nat.zero_le _
  · dsimp only
    split
    · exact Nat.zero_le _
    · exact length_exitAfter_le _ _ _

theorem length_terminate_le (c : Child) : c.terminate.2.length ≤ 1 := by
  unfold Child.terminate Child.signalled
  split
  · exact Nat.zero_le _
  · split
    · exact Nat.zero_le _
    · dsimp only
      split
      · exact Nat.zero_le _
      · exact length_exitAfter_le _ _ _

theorem length_askToEnd_le (c : Child) (grace : Float) : (askToEnd c grace).2.length ≤ 3 := by
  have hexits := length_terminate_le c
  have hawaited := length_await_le c.terminate.1
  simp only [askToEnd, List.length_append, List.length_cons]
  omega

theorem awaitExit_affords (c : Child) (read : List (List UInt8)) :
    Reply.Affords budget 4 { next := awaitExit c read } := by
  have halarms := length_await_le c
  unfold awaitExit
  dsimp only
  split
  · trivial
  · exact Nat.add_le_add_left halarms 3

theorem readOn_affords (c : Child) (passOn : Bool) (read : List (List UInt8))
    (rest : List (Float × List UInt8)) :
    (readOn c passOn read rest).Affords budget (rest.length + 4) := by
  induction rest generalizing read with
  | nil => exact awaitExit_affords c read
  | cons piece rest ih =>
    rw [readOn]
    split
    · split
      · exact (awaitExit_affords c read).mono (Nat.le_add_left 4 _)
      · exact Reply.Affords.mono (ih _) (by simp)
    · exact (Nat.add_right_comm rest.length 4 1).le

theorem start_affords (b : Behaviour) (launch : Launch) (passOn : Bool) :
    (start b launch passOn).Affords budget (b.output.length + 4) := by
  unfold start
  dsimp only
  split
  · trivial
  · refine Reply.Affords.mono (readOn_affords (.start b) passOn [] _) ?_
    split
    · exact le_rfl
    · exact Nat.le_add_left 4 _

theorem interrupt_affords (c : Child) : (interrupt c).Affords budget 3 := by
  have halarms := length_askToEnd_le c gracePeriod
  unfold interrupt
  split
  · trivial
  · dsimp only
    rw [Reply.Affords]
    split
    · trivial
    · next h => split at h <;> cases h
    · next h =>
      split at h
      · cases h
      · cases h
        rwa [budget, Nat.zero_add]

theorem resume_affords (e : Execution) (wake : Wake) :
    (e.resume wake).Affords budget e.budget := by
  cases e with
  | reading c passOn read bytes rest =>
    rw [resume]
    split
    · exact (interrupt_affords _).mono (Nat.le_add_left 3 (rest.length + 1))
    · -- the piece that has arrived is read at once
      rw [readOn, if_pos (by decide)]
      split
      · exact (awaitExit_affords _ _).mono (Nat.le_add_left 4 _)
      · exact readOn_affords _ _ _ rest
  | exiting c output =>
    rw [resume]
    split
    · exact interrupt_affords _
    · split
      · trivial
      · exact le_rfl
  | ending c => trivial

end Job.Execution

/-- The bound on the pieces of output holds of every process. -/
def Surroundings.IsBounded (around : Surroundings) : Prop :=
  ∀ n, (around.behaviour n).output.length ≤ around.pieces

namespace Tool

variable {t : Tool} {around : Surroundings}

theorem ending_eq_interrupted {capture : Bool} {result : Job.Result}
    (h : t.ending capture result = .interrupted) : result = .interrupted := by
  cases result with
  | finished => cases h
  | refused failure =>
    rw [ending] at h
    split at h <;> cases h
  | interrupted => rfl

theorem reply_givesIn {component : String} {capture : Bool}
    {r : Reply Job.Execution Job.Result}
    (h : (t.reply component capture r).GivesIn fun i ↦ i.execution.IsEnding) :
    Job.Execution.GivesUp r.next := by
  obtain ⟨notes, next⟩ := r
  cases next with
  | ends result =>
    obtain rfl := ending_eq_interrupted h
    exact .ends
  | yields e => exact .yields h
  | waits e keep alarms => exact .waits keep alarms h

/-- The invocations of a tool give in to nothing but interruptions. -/
theorem runner_steadfast (t : Tool) (around : Surroundings) :
    (t.runner around).Steadfast fun i ↦ i.execution.IsEnding where
  start _ _ _ _ h := Job.Execution.start_not_givesUp _ _ _ (reply_givesIn h)
  resume _ _ _ _ h := Job.Execution.resume_givesUp (reply_givesIn h)

theorem reply_affords {component : String} {capture : Bool} {r : Reply Job.Execution Job.Result}
    {means : Nat} (h : r.Affords Job.Execution.budget means) :
    (t.reply component capture r).Affords (·.execution.budget) means := by
  obtain ⟨notes, next⟩ := r
  cases next <;> exact h

/-- The invocations of a tool keep within the means that it states. -/
theorem runner_frugal (t : Tool) (bounded : around.IsBounded) :
    (t.runner around).Frugal (·.execution.budget) where
  start n _ _ _ :=
    (reply_affords (Job.Execution.start_affords _ _ _)).mono
      (Nat.add_le_add (bounded n) (by decide))
  resume _ _ _ wake := reply_affords (Job.Execution.resume_affords _ wake)

theorem reply_confined (logs : t.LogsEnds) {component : String} {capture : Bool}
    {r : Reply Job.Execution Job.Result} (h : Job.Execution.Withholds r) :
    (t.reply component capture r).Confined (fun n ↦ ∀ bytes, n ≠ .output bytes)
      fun i ↦ i.capture = capture ∧ i.execution.IsSilent where
  notes n hn bytes := by
    obtain hn | hn := List.mem_append.1 hn
    · exact h.notes n hn bytes
    · unfold notesAfter at hn
      split at hn
      · obtain ⟨line, rfl⟩ := logs component _ n hn
        exact nofun
      · cases hn
  yields invocation hnext := by
    obtain ⟨notes, next⟩ := r
    cases next with
    | ends | waits => cases hnext
    | yields e =>
      cases hnext
      exact ⟨rfl, h.yields e rfl⟩
  waits invocation keep alarms hnext := by
    obtain ⟨notes, next⟩ := r
    cases next with
    | ends | yields => cases hnext
    | waits e =>
      cases hnext
      exact ⟨rfl, h.waits e keep alarms rfl⟩

/-- With captured output a tool passes nothing on. -/
theorem setup_confines (logs : t.LogsEnds) {setup : Run.Setup Nat Invocation}
    (hrunner : setup.runner = t.runner around) (hcapture : setup.policy.captureOutput = true) :
    setup.Confines (fun n ↦ ∀ bytes, n ≠ .output bytes)
      fun i ↦ i.capture = true ∧ i.execution.IsSilent where
  log _ := nofun
  progress _ := nofun
  start _ _ _ := by
    rw [hrunner, hcapture]
    exact reply_confined logs (Job.Execution.start_withholds _ _)
  resume _ _ invocation wake hkept := by
    rw [hrunner, ← hkept.1]
    exact reply_confined logs (Job.Execution.resume_withholds hkept.2 wake)

end Tool

end Testbed
