import Testbed.Proofs.Clock.Earliest
import Testbed.Proofs.Run.Coordination
import Testbed.Proofs.Run.OnCourse

/-!
# Rounds

The clock moves on to the earliest timer, and only when nothing else is pending.  A timer that a
round makes due was either due before or gives the round its instant.
-/

namespace Testbed.Run

open Clock

/-- The dues of timers are instants, unless they never come. -/
def Dated (timers : List Timer) : Prop :=
  ∀ t ∈ timers, IsInstant t.due ∨ t.due.isNaN = true

theorem Dated.isInstant {timers : List Timer} (h : Dated timers) {t : Timer} (ht : t ∈ timers)
    {x : Float} (hle : t.due ≤ x) : IsInstant t.due := by
  refine (h t ht).resolve_right fun hnan ↦ ?_
  exact (not_le_of_isNaN hnan x).1 hle

/-- The first of some timers is due at an instant, and none of them at an earlier one. -/
theorem Dated.earliest {timers : List Timer} (hdated : Dated timers) {due : Float}
    (h : Clock.earliest (timers.map (·.due)) = some due) :
    (∃ t ∈ timers, t.due = due) ∧ IsInstant due ∧
      ∀ t ∈ timers, IsInstant t.due → tick due ≤ tick t.due := by
  obtain ⟨hmem, hnan, hleast⟩ := earliest_eq_some h
  obtain ⟨t, ht, rfl⟩ := List.mem_map.1 hmem
  have hinstant : IsInstant t.due := (hdated t ht).resolve_right (ne_true_of_eq_false hnan)
  refine ⟨⟨t, ht, rfl⟩, hinstant, fun u hu hu' ↦ ?_⟩
  have hlate := hleast u.due (List.mem_map_of_mem hu) hu'
  rw [lt_iff_tick hu' hinstant] at hlate
  exact Nat.le_of_not_lt hlate

variable {σ ι : Type} {s : State σ ι}

theorem nextInstant_ticks (hnow : IsInstant s.now) (hdated : Dated s.timers) :
    Ticks s.timers s.next s.now s.nextInstant := by
  have hsame : Ticks s.timers s.next s.now s.now :=
    ⟨hnow, hnow, le_rfl, fun t _ hle ↦ (if_pos hle).symm, fun _ ↦ rfl⟩
  unfold State.nextInstant
  split
  · next hnext =>
    split
    · next due hdue =>
      obtain ⟨-, hinstant, hleast⟩ := hdated.earliest hdue
      split
      · next hlt =>
        rw [lt_iff_tick hnow hinstant] at hlt
        refine ⟨hnow, hinstant, hlt.le, fun t ht hle ↦ ?_, fun h ↦ absurd (by simpa using hnext) h⟩
        have ht' := hdated.isInstant ht hle
        have hdue' := hleast t ht ht'
        rw [le_iff_tick ht' hinstant] at hle
        have heq : t.due = due := tick_injective (by omega)
        rw [heq, if_neg]
        rw [le_iff_tick hinstant hnow]
        omega
      · exact hsame
    · exact hsame
  · exact hsame

/-- If nothing is pending then a timer is due next. -/
theorem exists_due (hnow : IsInstant s.now) (hdated : Dated s.timers) (hnext : s.next = [])
    {t : Timer} (ht : t ∈ s.timers) (hinstant : IsInstant t.due) :
    ∃ u ∈ s.timers, u.due ≤ s.nextInstant := by
  unfold State.nextInstant
  rw [hnext]
  obtain ⟨due, hdue⟩ := exists_earliest (List.mem_map_of_mem ht) hinstant
  obtain ⟨⟨u, hu, rfl⟩, hinstant, -⟩ := hdated.earliest hdue
  refine ⟨u, hu, ?_⟩
  simp only [List.isEmpty_nil, if_true, hdue]
  split
  · exact (le_iff_tick hinstant hinstant).2 le_rfl
  · next hlt =>
    rw [lt_iff_tick hnow hinstant] at hlt
    exact (le_iff_tick hinstant hnow).2 (by omega)

/-- A part of the timers sees the clock move as all of them do. -/
theorem Ticks.mono {timers timers' : List Timer} {next next' : List Turn} {now now' : Float}
    (h : Ticks timers next now now') (htimers : ∀ t ∈ timers', t ∈ timers)
    (hnext : next' ≠ [] → next ≠ []) : Ticks timers' next' now now' :=
  ⟨h.instant, h.instant', h.le, fun t ht ↦ h.due t (htimers t ht), fun hn ↦ h.next (hnext hn)⟩

theorem State.view_ticks {s : ScriptState} (h : Ticks s.timers s.next s.now s.nextInstant) (i : Nat)
    (c : String) : Ticks (s.view i c).timers (s.view i c).next (s.view i c).now s.nextInstant := by
  refine h.mono (fun t ht ↦ (List.mem_filter.1 ht).1) fun hn hnil ↦ hn ?_
  simp [State.view, hnil]

/-- The limit of an attempt is set for an instant, unless it never comes. -/
theorem Dated.setLimit {setup : Setup σ ι} (hnow : IsInstant s.now) (hdated : Dated s.timers)
    (i n : Nat) : Dated (setLimit setup i n s).timers := by
  intro t ht
  unfold Run.setLimit at ht
  split at ht
  · exact hdated t ht
  · next limit _ =>
    split at ht
    · exact hdated t ht
    · next hle =>
      obtain ht | ht := List.mem_append.1 ht
      · exact hdated t ht
      · obtain rfl := List.mem_singleton.1 ht
        by_cases hnan : (s.now + limit).isNaN = true
        · exact .inr hnan
        · exact .inl (isInstant_of_not_le hnow hle (by simpa using hnan))

/-! ## Timers of a scripted run -/

section Scripted

variable {script : Script} {policy : Policy} {s : ScriptState} {t : Turn} {i : Nat}

/-- The timers of an attempt are dated by its limit and by its delay. -/
theorem Dated.startAttempt (orderly : script.Orderly)
    (hnow : IsInstant s.now) (hdated : Dated s.timers) (c : String) (w : Worker Rehearsal.Invocation) :
    Dated (startAttempt (script.setup policy) i c w s).1.timers := by
  have hentered : Dated (s.entered script policy i c w.attempt).timers :=
    fun t ht ↦ hdated.setLimit hnow i w.attempt t (List.mem_filter.1 ht).1
  rw [startAttempt_scripted]
  dsimp only
  split
  · exact hentered
  · intro t ht
    obtain ht | ht := List.mem_append.1 ht
    · exact hentered t ht
    · obtain rfl := List.mem_singleton.1 ht
      refine .inl (isInstant_add ?_ (orderly.delay c)).1
      rw [entered_now]
      exact hnow

theorem Dated.attempt (orderly : script.Orderly)
    (hnow : IsInstant s.now) (hdated : Dated s.timers) (c : String) (left : Nat)
    (w : Worker Rehearsal.Invocation) :
    Dated (attempt (script.setup policy) i c left w s).timers := by
  rw [attempt_scripted]
  exact .startAttempt (s := (s.note _).note _) orderly hnow hdated c w

theorem Dated.endAttempt (orderly : script.Orderly)
    (hnow : IsInstant s.now) (hdated : Dated s.timers) (c : String) (left : Nat)
    (w : Worker Rehearsal.Invocation) (ending : Ending) :
    Dated (endAttempt (script.setup policy) i c (further (script.setup policy) i c left) w ending
      s).timers := by
  have hconclude (w : Worker Rehearsal.Invocation) (answer : Answer) {s : ScriptState}
      (hdated : Dated s.timers) :
      Dated (conclude (script.setup policy) i c w answer s).timers := by
    rw [conclude, (Script.setup_isQuiet script policy).emit]
    exact hdated
  rw [Run.endAttempt]
  dsimp only
  generalize hnoted : s.noteAll _ = noted
  rw [State.noteAll_eq] at hnoted
  replace hnow : IsInstant noted.now := by
    rw [← hnoted]
    exact hnow
  replace hdated : Dated noted.timers := by
    rw [← hnoted]
    exact hdated
  split
  · exact hdated
  · split
    · cases left with
      | zero => exact hconclude _ _ hdated
      | succ left => exact .attempt (s := noted.note _) orderly hnow hdated c left _
    · exact hconclude _ _ hdated

/-- An invocation that waits at a place has no aftermath. -/
def Slot.IsPlain (slot : Slot Rehearsal.Invocation) : Prop :=
  ∀ w invocation awaits signals, slot = .running w → w.stage = .suspended invocation awaits signals →
    ∃ cue, invocation = .waiting cue ∧ cue.aftermath = none

theorem Dated.handle (orderly : script.Orderly)
    (hnow : IsInstant s.now) (hdated : Dated s.timers) (ht : t.place? = some i)
    (hplain : ∀ slot, s.slot? i = some slot → slot.IsPlain) :
    Dated (handle (script.setup policy) t s).timers := by
  cases t with
  | work j =>
    obtain rfl : j = i := by simpa using ht
    cases hactive : s.isActive j
    · rw [handle_inactive ht hactive]
      exact hdated
    · obtain ⟨slot, hslot, ha⟩ := (Option.any_eq_true _ _).1 hactive
      obtain ⟨⟨started, n, outstanding, expired, stage⟩, rfl, hstage⟩ := Slot.isActive_iff.1 ha
      obtain ⟨c, hc⟩ := State.slot?_eq_some.1 hslot
      cases stage with
      | fresh =>
        rw [Run.handle, work, hc]
        exact .attempt orderly hnow hdated c _ _
      | suspended invocation awaits signals =>
        obtain ⟨cue, rfl, haftermath⟩ := hplain _ hslot _ _ _ _ rfl rfl
        obtain ⟨queued, rung, interrupted⟩ := signals
        cases queued with
        | false =>
          rw [Run.handle, work, hc]
          exact hdated
        | true =>
          rw [Run.handle, work_suspended hc rfl haftermath]
          refine .endAttempt orderly ?_ ?_ c _ _ _
          · exact hnow
          · exact fun t ht ↦ hdated t (List.mem_filter.1 ht).1
      | finished f => exact absurd rfl (hstage f)
  | expire j n =>
    rw [Run.handle, expire]
    split
    · split
      · split
        · rw [interrupt_eq]
          exact hdated
        · exact hdated
      · exact hdated
    · exact hdated
  | ring j n alarm =>
    rw [Run.handle, ring]
    split
    · split
      · split
        · dsimp only
          split <;> exact hdated
        · exact hdated
      · exact hdated
    · exact hdated
  | cancel | watch | notice | coordinate => cases ht

end Scripted

end Testbed.Run
