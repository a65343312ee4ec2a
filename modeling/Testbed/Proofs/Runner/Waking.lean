import Testbed.Proofs.Clock.Earliest
import Testbed.Proofs.Runner.Alone

/-!
# Waking up

An activity on its own that nobody interrupts goes on when the earliest of its alarms rings.  Then some
alarm has rung, and none was due at an instant before.  If its alarms are set for times that never
come, it stays as it is.
-/

namespace Testbed

open Clock

/-! ## Times that never come -/

/-- After a time that never comes there is no instant. -/
theorem Clock.isNaN_add {t delay : Float} (h : delay.isNaN = true) : (t + delay).isNaN = true := by
  have hadd : Float.Model.UnpackedFloat.add Float.Model.Format.binary64 t.toModel.unpack
      delay.toModel.unpack = .notANumber := by
    rw [unpack_of_isNaN h]
    cases t.toModel.unpack <;> rfl
  have hunpack : (t + delay).toModel.unpack = .notANumber :=
    congrArg (fun u ↦ (Float.Model.pack u).unpack) hadd
  exact congrArg Float.Model.UnpackedFloat.isNaN hunpack

/-- A wait that does not end at once leads to an instant to come, or to none. -/
theorem Clock.isNaN_or_later {t delay : Float} (ht : IsInstant t) (h : ¬delay ≤ 0) :
    (t + delay).isNaN = true ∨ IsInstant (t + delay) ∧ t ≤ t + delay := by
  cases hnan : delay.isNaN with
  | true => exact .inl (isNaN_add hnan)
  | false =>
    obtain ⟨hinstant, hle⟩ := isInstant_add ht (nonneg_of_not_le hnan h)
    exact .inr ⟨hinstant, (le_iff_tick ht hinstant).2 hle⟩

namespace Activity.Alone

variable {ι ρ : Type} {a : Alone ι ρ} {now : Float} {wake : Wake}

/-! ## The wake of an activity -/

/-- Nobody interrupts the activity, whose clock shows an instant. -/
structure IsCalm (a : Alone ι ρ) : Prop where
  now : IsInstant a.now
  interruptions : a.interruptions = []

/-- The wake with which an activity goes on at an instant: the alarms that are due, of which there is
one at least, while none was due at an instant before. -/
structure Rings (a : Alone ι ρ) (now : Float) (wake : Wake) : Prop where
  instant : IsInstant now
  later : a.now ≤ now
  calm : wake.interrupted = false
  rung : ∀ number, number ∈ wake.rung ↔ ∃ alarm ∈ a.alarms, alarm.due ≤ now ∧ alarm.number = number
  ne_nil : wake.rung ≠ []
  first : ∀ alarm ∈ a.alarms, IsInstant alarm.due → a.now ≤ alarm.due → ¬alarm.due < now

/-- The activity at a later instant, with the alarms that are still to ring. -/
def moved (a : Alone ι ρ) (now : Float) : Alone ι ρ :=
  { a with now, alarms := a.alarms.filter fun alarm ↦ !(alarm.due ≤ now) }

/-- The clock moves on to what is due first. -/
theorem rings_of_earliest (h : a.IsCalm) {due : Float}
    (hdue : earliest (a.alarms.map (·.due)) = some due) :
    let now := if a.now < due then due else a.now
    a.Rings now { rung := (a.alarms.filter (·.due ≤ now)).map (·.number) } := by
  obtain ⟨hmem, hnan, hleast⟩ := earliest_eq_some hdue
  obtain ⟨alarm, halarm, rfl⟩ := List.mem_map.1 hmem
  intro now
  have hnow : IsInstant now ∧ a.now ≤ now ∧ alarm.due ≤ now := by
    by_cases hlt : a.now < alarm.due
    · have hinstant := isInstant_of_lt h.now hlt
      rw [show now = alarm.due from if_pos hlt]
      refine ⟨hinstant, ?_, le_self hnan⟩
      rw [lt_iff_tick h.now hinstant] at hlt
      rw [le_iff_tick h.now hinstant]
      exact hlt.le
    · rw [show now = a.now from if_neg hlt]
      refine ⟨h.now, le_self h.now.not_isNaN, ?_⟩
      rw [lt_iff_not_le h.now hnan] at hlt
      exact not_not.1 hlt
  obtain ⟨hinstant, hlater, hle⟩ := hnow
  have hrung (number : Nat) : number ∈ (a.alarms.filter (·.due ≤ now)).map (·.number) ↔
      ∃ alarm ∈ a.alarms, alarm.due ≤ now ∧ alarm.number = number := by
    simp [and_assoc]
  refine ⟨hinstant, hlater, rfl, hrung, ?_, ?_⟩
  · exact List.ne_nil_of_mem ((hrung alarm.number).2 ⟨alarm, halarm, hle, rfl⟩)
  · intro other hother hotherInstant hotherLater hbefore
    by_cases hlt : a.now < alarm.due
    · rw [show now = alarm.due from if_pos hlt] at hbefore
      exact hleast other.due (List.mem_map_of_mem hother) hotherInstant hbefore
    · rw [show now = a.now from if_neg hlt, lt_iff_not_le hotherInstant h.now.not_isNaN] at hbefore
      exact hbefore hotherLater

/-- An activity that waits goes on when an alarm rings, or is stuck because none ever does. -/
theorem run_waits (h : a.IsCalm) {state : ι} {keep : List Nat} {alarms : List (Nat × Float)}
    (hnext : a.next = .waits state keep alarms) (resume : Float → ι → Wake → Reply ι ρ) (turns : Nat) :
    (a.wake? = none ∧ ∀ alarm ∈ a.alarms, alarm.due.isNaN = true) ∧ a.run resume (turns + 1) = a ∨
    ∃ now wake, (a.wake? = some (state, now, wake) ∧ a.Rings now wake) ∧
      a.run resume (turns + 1) = ((a.moved now).accept (resume now state wake)).run resume turns := by
  cases hdue : earliest (a.alarms.map (·.due)) with
  | none =>
    have hwake : a.wake? = none := by
      simp only [wake?, hnext, h.interruptions, List.nil_append, hdue]
    refine .inl ⟨⟨hwake, ?_⟩, by rw [run, hwake]⟩
    intro alarm halarm
    exact earliest_eq_none hdue alarm.due (List.mem_map_of_mem halarm)
  | some due =>
    have hrings := rings_of_earliest h hdue
    set now := if a.now < due then due else a.now with hnow
    have hwake : a.wake? = some (state, now,
        { rung := (a.alarms.filter (·.due ≤ now)).map (·.number) }) := by
      simp only [wake?, hnext, h.interruptions, List.nil_append, hdue, List.any_nil, ← hnow]
    refine .inr ⟨_, _, ⟨hwake, hrings⟩, ?_⟩
    rw [run, hwake]
    simp only [moved, h.interruptions, List.filter_nil]

end Activity.Alone

end Testbed
