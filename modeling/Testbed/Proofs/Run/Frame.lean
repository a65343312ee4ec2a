import Testbed.Proofs.Run.Control
import Testbed.Proofs.Run.Rounds

/-!
# What a step leaves alone

The clock moves only between rounds.  What was noted in the journal stays there, and a run that was
cancelled stays cancelled.
-/

namespace Testbed.Run

open Clock

variable {σ ι : Type} {setup : Setup σ ι} {s s' s'' : State σ ι} {t : Turn}

/-- What the coordinator leaves alone. -/
structure Coordinated (s s' : State σ ι) : Prop where
  now : s'.now = s.now
  timers : s'.timers = s.timers
  queue : s'.queue = s.queue
  next : ∃ new, s'.next = s.next ++ new ∧ .cancel ∉ new
  shared : s'.shared = s.shared
  halted : s.halted = true → s'.halted = true
  cancelled : s'.cancelled = s.cancelled
  journal : ∃ new, s'.journal = new ++ s.journal ∧ Skips s.now new

namespace Coordinated

theorem refl (s : State σ ι) : Coordinated s s :=
  ⟨rfl, rfl, rfl, ⟨[], by simp⟩, rfl, id, rfl, [], rfl, .nil _⟩

theorem trans (h : Coordinated s s') (h' : Coordinated s' s'') : Coordinated s s'' where
  now := h'.now.trans h.now
  timers := h'.timers.trans h.timers
  queue := h'.queue.trans h.queue
  next := by
    obtain ⟨new, hnew, hcancel⟩ := h.next
    obtain ⟨new', hnew', hcancel'⟩ := h'.next
    exact ⟨new ++ new', by rw [hnew', hnew, List.append_assoc], by simp [hcancel, hcancel']⟩
  shared := h'.shared.trans h.shared
  halted := h'.halted ∘ h.halted
  cancelled := h'.cancelled.trans h.cancelled
  journal := by
    obtain ⟨new, hnew, hskips⟩ := h.journal
    obtain ⟨new', hnew', hskips'⟩ := h'.journal
    rw [h.now] at hskips'
    exact ⟨new' ++ new, by rw [hnew', hnew, List.append_assoc], hskips'.append hskips⟩

theorem note (s : State σ ι) (line : LogLine) : Coordinated s (s.note (.log line)) :=
  ⟨rfl, rfl, rfl, ⟨[], by simp [State.note]⟩, rfl, id, rfl, [_], rfl, .log s.now line⟩

theorem collected (setup : Setup σ ι) (s : State σ ι) : Coordinated s (s.collected setup) := by
  obtain ⟨new, hnew, hlog⟩ := s.collected_eq setup
  rw [hnew]
  refine ⟨rfl, rfl, rfl, ⟨[], by simp⟩, rfl, fun h ↦ ?_, rfl, new, rfl, .of_log hlog⟩
  rw [h]
  exact State.settle_halted_true _ _

theorem complete (quiet : setup.IsQuiet) (s : State σ ι) : Coordinated s (complete setup s) := by
  obtain ⟨new, hnew, hskips⟩ := complete_eq quiet s
  rw [hnew]
  exact ⟨rfl, rfl, rfl, ⟨[], by simp⟩, rfl, id, rfl, new, rfl, hskips⟩

theorem drain (cause : Option Abort) (s : State σ ι) : Coordinated s (drain cause s) := by
  rw [drain_eq]
  refine ⟨rfl, rfl, rfl, ⟨_, List.append_assoc _ _ _, ?_⟩, rfl, id, rfl, [], rfl, .nil _⟩
  simp [List.mem_replicate]

theorem concludeDrain (quiet : setup.IsQuiet) (cause : Option Abort) (s : State σ ι) :
    Coordinated s (concludeDrain setup cause s) := by
  cases cause with
  | none =>
    obtain ⟨new, hnew, hskips⟩ := concludeDrain_eq_none quiet s
    rw [hnew]
    exact ⟨rfl, rfl, rfl, ⟨[], by simp⟩, rfl, id, rfl, new, rfl, hskips⟩
  | some abort =>
    obtain ⟨new, hnew, hskips⟩ := concludeDrain_eq_some quiet abort s
    rw [hnew]
    exact ⟨rfl, rfl, rfl, ⟨[], by simp⟩, rfl, id, rfl, new, rfl, hskips⟩

theorem filled (setup : Setup σ ι) (s : State σ ι) : Coordinated s (s.filled setup) := by
  rw [State.filled]
  split
  · exact refl s
  · rw [launch_eq]
    exact ⟨rfl, rfl, rfl, ⟨_, rfl, by simp⟩, rfl, id, rfl, [], rfl, .nil _⟩

theorem fill (quiet : setup.IsQuiet) (s : State σ ι) : Coordinated s (fill setup s) := by
  rw [fill_eq]
  split
  · exact (filled setup s).trans (complete quiet _)
  · exact (filled setup s).trans ⟨rfl, rfl, rfl, ⟨[], by simp⟩, rfl, id, rfl, [], rfl, .nil _⟩

theorem coordinate (quiet : setup.IsQuiet) (s : State σ ι) : Coordinated s (coordinate setup s) := by
  have hcollected := collected setup s
  unfold Run.coordinate
  split
  · rw [collect_eq]
    split
    · exact hcollected.trans (drain _ _)
    · split
      · split
        · exact hcollected.trans ((note _ _).trans (concludeDrain quiet _ _))
        · exact hcollected.trans ((note _ _).trans (drain _ _))
      · exact hcollected.trans (fill quiet _)
  · exact concludeDrain quiet _ s
  · exact refl s

end Coordinated

/-- A turn takes no time, adds to the journal and does not take a halt or a cancellation back. -/
structure Taken (s s' : State σ ι) : Prop where
  now : s'.now = s.now
  queue : s'.queue = s.queue
  journal : ∃ new, s'.journal = new ++ s.journal
  halted : s.halted = true → s'.halted = true
  cancelled : s.cancelled = true → s'.cancelled = true

theorem handle_taken (quiet : setup.IsQuiet) (t : Turn) (s : State σ ι) :
    Taken s (handle setup t s) := by
  have hplace {i : Nat} (ht : t.place? = some i) : Taken s (handle setup t s) := by
    have h := handle_turned quiet ht s
    obtain ⟨new, hnew, -⟩ := h.journal
    exact ⟨h.now, h.queue, ⟨new, hnew⟩, fun hc ↦ h.halted.trans hc, fun hc ↦ h.cancelled.trans hc⟩
  obtain ⟨i, ht⟩ | rfl | ⟨ht, hne⟩ := t.kinds
  · exact hplace ht
  · have h := Coordinated.coordinate quiet s
    obtain ⟨new, hnew, -⟩ := h.journal
    exact ⟨h.now, h.queue, ⟨new, hnew⟩, h.halted, fun hc ↦ h.cancelled.trans hc⟩
  · have h := handle_tells setup ht hne s
    exact ⟨h.now, h.queue, ⟨[], h.journal⟩, fun hc ↦ h.halted.trans hc, h.isCancelled⟩

theorem step_journal (quiet : setup.IsQuiet) (s : State σ ι) :
    ∃ new, (step setup s).journal = new ++ s.journal := by
  unfold step
  split
  · exact (handle_taken quiet _ _).journal
  · exact ⟨[], rfl⟩

theorem step_cancelled (quiet : setup.IsQuiet) (h : s.cancelled = true) :
    (step setup s).cancelled = true := by
  unfold step
  split
  · exact (handle_taken quiet _ _).cancelled h
  · exact h

theorem step_halted (quiet : setup.IsQuiet) (h : s.halted = true) :
    (step setup s).halted = true := by
  unfold step
  split
  · exact (handle_taken quiet _ _).halted h
  · exact h

/-- Time does not run backwards. -/
theorem step_now (quiet : setup.IsQuiet) (hnow : IsInstant s.now) (hdated : Dated s.timers) :
    tick s.now ≤ tick (step setup s).now := by
  unfold step
  split
  · rw [(handle_taken quiet _ _).now]
  · exact (nextInstant_ticks hnow hdated).le

/-- As long as there is something to do, time stands still. -/
theorem step_now_of_turns (quiet : setup.IsQuiet) (h : s.turns ≠ []) : (step setup s).now = s.now := by
  unfold step
  split
  · exact (handle_taken quiet _ _).now
  · next hqueue =>
    have hnext : s.next ≠ [] := by simpa [State.turns, hqueue] using h
    simp [State.advance, State.nextInstant, hnext]

/-! ## Runs that are not cancelled -/

/-- Nothing cancels the run. -/
structure Undisturbable (s : State σ ι) : Prop where
  cancelled : s.cancelled = false
  turns : .cancel ∉ s.turns
  timers : ∀ t ∈ s.timers, t.turn ≠ .cancel

theorem Undisturbable.of_before (hs : Undisturbable (s.before t)) : Undisturbable s :=
  ⟨hs.cancelled, fun h ↦ hs.turns (List.mem_cons_of_mem t h), hs.timers⟩

theorem Undisturbable.append (hs : Undisturbable s) (hcancelled : s'.cancelled = s.cancelled)
    (hturns : ∃ new, s'.turns = s.turns ++ new ∧ .cancel ∉ new)
    (htimers : ∀ u ∈ s'.timers, u.turn = .cancel → u ∈ s.timers) : Undisturbable s' := by
  obtain ⟨new, hnew, hcancel⟩ := hturns
  refine ⟨hcancelled.trans hs.cancelled, ?_, fun u hu hu' ↦ hs.timers u (htimers u hu hu') hu'⟩
  rw [hnew]
  exact fun hmem ↦ (List.mem_append.1 hmem).elim hs.turns hcancel

theorem Undisturbable.handle (quiet : setup.IsQuiet) (hs : Undisturbable (s.before t)) :
    Undisturbable (handle setup t s) := by
  have hrest := hs.of_before
  obtain ⟨i, ht⟩ | rfl | ⟨ht, hne⟩ := t.kinds
  · have h := handle_turned quiet ht s
    obtain ⟨new, hnew, hi⟩ := h.turns
    refine hrest.append h.cancelled ⟨new, hnew, fun hmem ↦ ?_⟩ fun u hu hcancel ↦ ?_
    · obtain hi | hi := hi _ hmem <;> cases hi
    · have hmem : u ∈ (Run.handle setup t s).timers.filter (·.turn.place? ≠ some i) := by
        simp [hu, hcancel]
      rw [h.timers] at hmem
      exact (List.mem_filter.1 hmem).1
  · have h := Coordinated.coordinate quiet s
    obtain ⟨new, hnew, hcancel⟩ := h.next
    refine hrest.append h.cancelled ⟨new, ?_, hcancel⟩ fun u hu _ ↦ h.timers ▸ hu
    rw [Run.handle, State.turns, h.queue, hnew, State.turns, List.append_assoc]
  · have h := handle_tells setup ht hne s
    have hcancel : t ≠ .cancel := by
      rintro rfl
      exact hs.turns List.mem_cons_self
    refine hrest.append (h.cancelled.resolve_right fun hc ↦ hcancel hc.1) ?_
      fun u hu _ ↦ h.timers ▸ hu
    obtain hturns | hturns := h.turns
    · exact ⟨[], by rw [hturns, List.append_nil], List.not_mem_nil⟩
    · exact ⟨_, hturns, by simpa using (t.sequel_ne_cancel s.epoch).symm⟩

theorem Undisturbable.advance (hs : Undisturbable s) (hqueue : s.queue = []) :
    Undisturbable s.advance := by
  have hdue : .cancel ∉ (s.timers.filter (·.due ≤ s.nextInstant)).map (·.turn) := by
    simp only [List.mem_map, List.mem_filter, not_exists, not_and, and_imp]
    exact fun t ht _ ↦ hs.timers t ht
  refine hs.append rfl ⟨_, ?_, hdue⟩ fun u hu _ ↦ ?_
  · simp [State.advance, State.turns, hqueue, List.partition_eq_filter_filter]
  · simp only [State.advance, List.partition_eq_filter_filter] at hu
    exact (List.mem_filter.1 hu).1

theorem Undisturbable.step (quiet : setup.IsQuiet) (hs : Undisturbable s) :
    Undisturbable (step setup s) := by
  unfold Run.step
  split
  · next t queue hqueue =>
    rw [State.eq_before hqueue] at hs
    exact hs.handle quiet
  · next hqueue => exact hs.advance hqueue

end Testbed.Run
