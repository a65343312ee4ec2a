import Testbed.Proofs.Clock.Instant
import Testbed.Proofs.Runner.Timeliness
import Testbed.Proofs.Session.Output

/-!
# Activities on their own

An activity on its own that nobody interrupts goes on whenever its alarm rings, as often as it sets
one.  An activity that wraps another one, and passes on no more output than that, goes on in the same
way and ends with what the other one's result means.
-/

namespace Testbed

open Clock

/-! ## Output among notes -/

/-- The output of processes that some notes pass on. -/
def Note.passedOn (notes : List Note) : List UInt8 :=
  notes.flatMap fun n ↦ match n with
    | .output bytes => bytes
    | _ => []

theorem Note.passedOn_append (notes notes' : List Note) :
    passedOn (notes ++ notes') = passedOn notes ++ passedOn notes' :=
  List.flatMap_append

theorem Journal.passedOn_append (j j' : Journal) : (j ++ j').passedOn = j.passedOn ++ j'.passedOn :=
  List.flatMap_append

theorem Journal.passedOn_notes (now : Float) (notes : List Note) :
    Journal.passedOn (notes.map fun n ↦ ⟨now, n⟩) = Note.passedOn notes := by
  rw [Journal.passedOn, List.flatMap_map]
  rfl

namespace Activity.Alone

variable {ι ρ ι' ρ' : Type} {a : Alone ι ρ} {a' : Alone ι' ρ'} {reply : Reply ι ρ}

/-! ## Activities that wait for one alarm -/

/-- The clock moves on to what is due, and never back. -/
theorem isInstant_later {now due : Float} (hnow : IsInstant now) (hdue : IsInstant due) :
    IsInstant (if now < due then due else now) ∧ due ≤ if now < due then due else now := by
  split
  · exact ⟨hdue, le_self hdue.not_isNaN⟩
  · next hlt =>
    refine ⟨hnow, ?_⟩
    rw [lt_iff_tick hnow hdue] at hlt
    rw [le_iff_tick hdue hnow]
    omega

/-- Nothing is pending at an instant. -/
structure IsIdle (a : Alone ι ρ) : Prop where
  now : IsInstant a.now
  alarms : a.alarms = []
  interruptions : a.interruptions = []

/-- The activity having noted something more at the present instant. -/
def noted (a : Alone ι ρ) (notes : List Note) : Alone ι ρ :=
  { a with journal := a.journal ++ notes.map fun n ↦ ⟨a.now, n⟩ }

theorem IsIdle.noted (idle : a.IsIdle) (notes : List Note) : (a.noted notes).IsIdle :=
  ⟨idle.now, idle.alarms, idle.interruptions⟩

theorem passedOn_noted (a : Alone ι ρ) (notes : List Note) :
    (a.noted notes).journal.passedOn = a.journal.passedOn ++ Note.passedOn notes := by
  rw [noted, Journal.passedOn_append, Journal.passedOn_notes]

theorem passedOn_accept (a : Alone ι ρ) (reply : Reply ι ρ) :
    (a.accept reply).journal.passedOn = a.journal.passedOn ++ Note.passedOn reply.notes :=
  passedOn_noted a reply.notes

/-- What is noted first may as well have been noted before. -/
theorem accept_notes (a : Alone ι ρ) (notes : List Note) (reply : Reply ι ρ) :
    a.accept { reply with notes := notes ++ reply.notes } = (a.noted notes).accept reply := by
  simp only [accept, noted, List.map_append, List.append_assoc]

theorem run_of_ends {result : ρ} (h : a.next = .ends result) (resume : Float → ι → Wake → Reply ι ρ)
    (turns : Nat) : a.run resume turns = a := by
  cases turns with
  | zero => rfl
  | succ turns => simp only [run, wake?, h]

theorem result?_run_accept_of_ends {result : ρ} (h : reply.next = .ends result) (a : Alone ι ρ)
    (resume : Float → ι → Wake → Reply ι ρ) (turns : Nat) :
    ((a.accept reply).run resume turns).result? = some result := by
  have hnext : (a.accept reply).next = .ends result := h
  rw [run_of_ends hnext, result?, hnext]

/-- An activity that waits for one alarm goes on when it rings, and nothing is pending then. -/
theorem run_accept_of_waits (idle : a.IsIdle) (reply : Reply ι ρ) {state : ι} {keep : List Nat}
    {number : Nat} {delay : Float} (hnext : reply.next = .waits state keep [(number, delay)]) (hdelay : 0 ≤ delay)
    (resume : Float → ι → Wake → Reply ι ρ) (turns : Nat) :
    ∃ b : Alone ι ρ, b.IsIdle ∧ b.journal = (a.accept reply).journal ∧
      (a.accept reply).run resume (turns + 1) =
        (b.accept (resume b.now state { rung := [number] })).run resume turns := by
  obtain ⟨hnow, halarms, hcalm⟩ := idle
  obtain ⟨hdue, hle⟩ := isInstant_add hnow hdelay
  have hnan := hdue.not_isNaN
  set due := a.now + delay with hdue_eq
  set now := if a.now < due then due else a.now with hnow_eq
  have hnow' : IsInstant now ∧ due ≤ now := isInstant_later hnow hdue
  have haccept : a.accept reply = { a with
      journal := a.journal ++ reply.notes.map fun n ↦ ⟨a.now, n⟩
      alarms := [⟨due, number⟩]
      next := .waits state keep [(number, delay)] } := by
    rw [accept, hnext, halarms]
    rfl
  have hwake : (a.accept reply).wake? = some (state, now, { rung := [number] }) := by
    have hearliest : earliest [due] = some due := by
      rw [earliest, earliest, if_neg (ne_true_of_eq_false hnan)]
    simp only [wake?, haccept, hcalm, List.map_cons, List.map_nil, List.nil_append, hearliest,
      List.any_nil, ← hnow_eq, List.filter_cons, hnow'.2, decide_true, if_true, List.filter_nil]
  refine ⟨{ (a.accept reply) with now := now, alarms := [] }, ⟨hnow'.1, rfl, ?_⟩, rfl, ?_⟩
  · rw [haccept]
    exact hcalm
  · rw [run, hwake]
    simp only [haccept, List.filter_cons, hnow'.2, decide_true, Bool.not_true, Bool.false_eq_true,
      if_false, List.filter_nil, hcalm]

/-! ## Activities that wrap another one -/

/-- An activity stands as another one does, in its own terms, and has passed on the same output. -/
structure Mirrors (f : ι → ι') (g : ρ → ρ') (a : Alone ι ρ) (a' : Alone ι' ρ') : Prop where
  now : a'.now = a.now
  alarms : a'.alarms = a.alarms
  interruptions : a'.interruptions = a.interruptions
  next : a'.next = a.next.map f g
  passedOn : a'.journal.passedOn = a.journal.passedOn

variable {f : ι → ι'} {g : ρ → ρ'}

theorem Mirrors.result? (h : Mirrors f g a a') : a'.result? = a.result?.map g := by
  rw [Alone.result?, Alone.result?, h.next]
  cases a.next <;> rfl

theorem Mirrors.accept {reply' : Reply ι' ρ'} (h : Mirrors f g a a')
    (hnext : reply'.next = reply.next.map f g)
    (hnotes : Note.passedOn reply'.notes = Note.passedOn reply.notes) :
    Mirrors f g (a.accept reply) (a'.accept reply') where
  now := h.now
  alarms := by
    rw [Alone.accept, Alone.accept, hnext, h.alarms, h.now]
    cases reply.next <;> rfl
  interruptions := h.interruptions
  next := hnext
  passedOn := by rw [passedOn_accept, passedOn_accept, h.passedOn, hnotes]

theorem Mirrors.start {reply' : Reply ι' ρ'} (hnext : reply'.next = reply.next.map f g)
    (hnotes : Note.passedOn reply'.notes = Note.passedOn reply.notes) (now : Float)
    (interruptions : List Float) :
    Mirrors f g (Alone.start now interruptions reply) (Alone.start now interruptions reply') := by
  apply Mirrors.accept (h := ?_) hnext hnotes
  exact ⟨rfl, rfl, rfl, hnext, rfl⟩

theorem Mirrors.wake? (h : Mirrors f g a a') :
    a'.wake? = a.wake?.map fun (state, now, wake) ↦ (f state, now, wake) := by
  rw [Alone.wake?, Alone.wake?, h.next, h.now, h.alarms, h.interruptions]
  cases a.next with
  | ends | yields => rfl
  | waits state keep alarms =>
    simp only [Next.map]
    cases earliest (a.interruptions ++ a.alarms.map (·.due)) <;> rfl

/-- An activity that wraps another one keeps in step with it. -/
theorem Mirrors.run {resume : Float → ι → Wake → Reply ι ρ} {resume' : Float → ι' → Wake → Reply ι' ρ'}
    (hnext : ∀ now state wake, (resume' now (f state) wake).next = (resume now state wake).next.map f g)
    (hnotes : ∀ now state wake,
      Note.passedOn (resume' now (f state) wake).notes = Note.passedOn (resume now state wake).notes)
    (h : Mirrors f g a a') (turns : Nat) : Mirrors f g (a.run resume turns) (a'.run resume' turns) := by
  induction turns generalizing a a' with
  | zero => exact h
  | succ turns ih =>
    rw [Alone.run, Alone.run, h.wake?]
    cases a.wake? with
    | none => exact h
    | some due =>
      obtain ⟨state, now, wake⟩ := due
      refine ih (Mirrors.accept ⟨rfl, ?_, ?_, h.next, h.passedOn⟩ (hnext now state wake) (hnotes now state wake))
      · simp only [h.alarms]
      · simp only [h.interruptions]

end Activity.Alone

end Testbed
