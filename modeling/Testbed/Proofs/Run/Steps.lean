import Testbed.Proofs.Run.Runs

/-!
# Steps of scripted runs

What one step of a scripted run can do, said once for all that is shown of every state of a run: a
property that each kind of step keeps is kept by the run.
-/

namespace Testbed.Run

variable {p : Production} {lots : Nat → Lot} {s s' : ScriptState} {t : Turn}

theorem Coordinates.coordinated (h : Coordinates p s s') : Coordinated s s' := by
  have quiet := p.setup_isQuiet
  cases h with
  | fills waiting cancelled abort eq =>
    rw [eq]
    exact (Coordinated.collected p.setup s).trans (.fill quiet _)
  | drains line waiting cancelled abort eq =>
    rw [eq]
    exact (Coordinated.collected p.setup s).trans ((Coordinated.note _ _).trans (.drain none _))
  | ends line waiting cancelled abort idle eq =>
    rw [eq]
    exact (Coordinated.collected p.setup s).trans ((Coordinated.note _ _).trans
      (.concludeDrain quiet none _))
  | drained draining idle eq =>
    rw [eq]
    exact .concludeDrain quiet none s

/-- What a step does to a scripted run. -/
inductive Stepped (p : Production) (s s' : ScriptState) : Prop
  | advances (queue : s.queue = []) (eq : s' = s.advance)
  | turns (t : Turn) (i : Nat) (rest : List Turn) (queue : s.queue = t :: rest)
    (place : t.place? = some i) (eq : s' = handle p.setup t { s with queue := rest })
  | tells (t : Turn) (rest : List Turn) (queue : s.queue = t :: rest) (place : t.place? = none)
    (ne : t ≠ .coordinate) (eq : s' = handle p.setup t { s with queue := rest })
  | coordinates (rest : List Turn) (queue : s.queue = .coordinate :: rest)
    (coordinates : Coordinates p { s with queue := rest } s')

theorem Play.stepped (sound : p.Sound) (hcontrol : Control s) (hplay : Play p lots s)
    (hdone : s.isDone = false) : Stepped p s (Run.step p.setup s) := by
  unfold Run.step
  split
  · next t queue hqueue =>
    obtain ⟨i, ht⟩ | rfl | ⟨ht, hne⟩ := t.kinds
    · exact .turns t i queue hqueue ht rfl
    · rw [State.eq_before hqueue] at hcontrol hplay
      exact .coordinates queue hqueue ((hplay.of_before rfl).coordinates sound hcontrol hdone)
    · exact .tells t queue hqueue ht hne rfl
  · next hqueue => exact .advances hqueue rfl

/-- What every step keeps is kept by the run. -/
theorem Play.steps_keep {P : ScriptState → Prop} (sound : p.Sound)
    (hstep : ∀ {s lots}, Control s → Play p lots s → s.isDone = false → P s → P (Run.step p.setup s))
    (hcontrol : Control s) (hplay : Play p lots s) (hs : P s) (n : Nat) : P (Run.steps p.setup n s) := by
  refine (steps_induction (P := fun s ↦ Control s ∧ (∃ lots, Play p lots s) ∧ P s)
    (fun s hdone h ↦ ?_) ⟨hcontrol, ⟨lots, hplay⟩, hs⟩ n).2.2
  obtain ⟨hcontrol, ⟨lots, hplay⟩, hs⟩ := h
  obtain ⟨lots', hplay', -⟩ := hplay.step sound hcontrol hdone
  exact ⟨hcontrol.step p.setup_isQuiet hdone, ⟨lots', hplay'⟩, hstep hcontrol hplay hdone hs⟩

end Testbed.Run
