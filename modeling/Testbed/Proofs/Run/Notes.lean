import Testbed.Proofs.Run.Coordination
import Testbed.Proofs.Run.Replies

/-!
# What a run notes

Nothing is ever taken out of the journal of a run.  What is added to it are log lines, progress
events and what the runner notes; this holds of every run, whatever its listener does.
-/

namespace Testbed.Run

variable {σ ι : Type} {setup : Setup σ ι} {i : Nat} {s s' s'' : State σ ι}

/-! ## Turns that note nothing -/

theorem ring_journal (i attempt alarm : Nat) (s : State σ ι) :
    (ring i attempt alarm s).journal = s.journal := by
  unfold ring
  split
  · split
    · split
      · dsimp only
        split <;> rfl
      · rfl
    · rfl
  · rfl

theorem interrupt_journal (i : Nat) (s : State σ ι) : (interrupt i s).journal = s.journal := by
  rw [interrupt_eq]

theorem expire_journal (i attempt : Nat) (s : State σ ι) :
    (expire i attempt s).journal = s.journal := by
  unfold expire
  split
  · split
    · split
      · exact interrupt_journal i _
      · rfl
    · rfl
  · rfl

/-- Only work and the coordinator note anything. -/
theorem handle_journal (setup : Setup σ ι) {t : Turn} (hwork : ∀ i, t ≠ .work i) (hne : t ≠ .coordinate)
    (s : State σ ι) : (handle setup t s).journal = s.journal := by
  cases t with
  | work i => exact absurd rfl (hwork i)
  | expire i n => exact expire_journal i n s
  | ring i n alarm => exact ring_journal i n alarm s
  | cancel | watch | notice => exact (handle_tells setup rfl hne s).journal
  | coordinate => exact absurd rfl hne

theorem emit_grows {allowed : Note → Prop} (s : State σ ι) (e : Event)
    (hdebug : allowed (.debug .run ("Progress: " ++ e.detail))) (hprogress : allowed (.progress e)) :
    Grows allowed s (setup.emit s e).1 := by
  have hnoted := (Grows.note s hdebug).trans (.note _ hprogress)
  refine hnoted.trans (.of_journal ?_)
  unfold Setup.emit
  dsimp only
  cases (setup.listener e).cancel with
  | none => rfl
  | some delay =>
    cases delay with
    | none => exact (cancel_tells _).journal
    | some delay => rfl

/-! ## Turns of the coordinator -/

/-- What the coordinator notes: progress, log lines that warn of nothing, and that the run was
cancelled. -/
inductive IsRoutine : Note → Prop
  | debug (channel : Channel) (text : String) : IsRoutine (.debug channel text)
  | info (channel : Channel) (text : String) : IsRoutine (.info channel text)
  | progress (event : Event) : IsRoutine (.progress event)
  | cancelled (text : String) :
    IsRoutine (.warning .run ("Run cancelled, stopping " ++ text ++ " component(s)"))

theorem IsRoutine.cases {n : Note} (h : IsRoutine n) :
    (∃ line, n = .log line) ∨ ∃ event, n = .progress event := by
  cases h with
  | debug | info | cancelled => exact .inl ⟨_, rfl⟩
  | progress event => exact .inr ⟨event, rfl⟩

theorem emitSkips_grows (places : List Nat) (s : State σ ι) :
    Grows IsRoutine s (emitSkips setup places s).1 := by
  induction places generalizing s with
  | nil => exact .refl s
  | cons i places ih =>
    rw [emitSkips]
    split
    · exact ih s
    · next p _ =>
      have hemit : Grows IsRoutine s (setup.emit s (skipEvent p.component)).1 :=
        emit_grows s _ (.debug _ _) (.progress _)
      split
      · next heq => rwa [heq] at hemit
      · next heq =>
        rw [heq] at hemit
        exact hemit.trans (ih _)

theorem complete_grows (s : State σ ι) : Grows IsRoutine s (complete setup s) := by
  have hskips : Grows IsRoutine s (emitSkips setup (s.placesWith Slot.isPending) s).1 :=
    emitSkips_grows _ s
  unfold complete
  dsimp only
  split
  · next heq =>
    rw [heq] at hskips
    exact hskips.trans (.of_journal rfl)
  · next heq =>
    rw [heq] at hskips
    exact (hskips.trans (.of_journal rfl)).trans ((Grows.note _ (.info _ _)).trans (.of_journal rfl))

theorem drain_grows (cause : Option Abort) (s : State σ ι) : Grows IsRoutine s (drain cause s) :=
  .of_journal (by rw [drain_eq])

theorem concludeDrain_grows (cause : Option Abort) (s : State σ ι) :
    Grows IsRoutine s (concludeDrain setup cause s) := by
  have hskips : Grows IsRoutine s
      (emitSkips setup (s.placesWith fun slot ↦ slot.isRunning && !slot.kept) s).1 :=
    emitSkips_grows _ s
  unfold concludeDrain
  generalize emitSkips setup _ s = skips at hskips
  obtain ⟨s₁, failure⟩ := skips
  refine hskips.trans ?_
  cases failure with
  | none =>
    cases cause with
    | none => exact Grows.trans (.of_journal rfl) (complete_grows _)
    | some abort => exact .of_journal rfl
  | some failure =>
    cases cause with
    | none => exact drain_grows _ _
    | some abort => exact .of_journal rfl

theorem fill_grows (s : State σ ι) : Grows IsRoutine s (fill setup s) := by
  have hfilled : Grows IsRoutine s (s.filled setup) := by
    unfold State.filled
    split
    · exact .refl s
    · exact .of_journal (by rw [launch_eq])
  rw [fill_eq]
  split
  · exact hfilled.trans (complete_grows _)
  · exact hfilled.trans (.of_journal rfl)

theorem collected_grows (s : State σ ι) : Grows IsRoutine s (s.collected setup) := by
  have hroutine (failFast halted : Bool) (places : List (Place ι)) :
      ∀ n ∈ (State.settle failFast halted places).notes, IsRoutine n := by
    induction places generalizing halted with
    | nil => exact List.forall_mem_nil _
    | cons p places ih =>
      rw [State.settle]
      split
      · exact ih halted
      · intro n hn
        obtain hn | hn := List.mem_append.1 hn
        · split at hn
          · exact List.mem_singleton.1 hn ▸ .info _ _
          · cases hn
        · exact ih _ n hn
      · exact List.forall_mem_nil _
      · exact List.forall_mem_nil _
  exact Grows.trans (.of_journal rfl) (.noteAll _ (hroutine _ _ _))

theorem coordinate_grows (s : State σ ι) : Grows IsRoutine s (coordinate setup s) := by
  have hcollected : Grows IsRoutine s (s.collected setup) := collected_grows s
  have hnote : Grows IsRoutine s ((s.collected setup).note (s.collected setup).cancelNote) :=
    hcollected.trans (.note _ (.cancelled _))
  unfold coordinate
  split
  · rw [collect_eq]
    split
    · exact hcollected.trans (drain_grows _ _)
    · split
      · split
        · exact hnote.trans (concludeDrain_grows _ _)
        · exact hnote.trans (drain_grows _ _)
      · exact hcollected.trans (fill_grows _)
  · exact concludeDrain_grows _ s
  · exact .refl s

/-! ## Everything that a run notes -/

/-- What may stand in the journal of a run. -/
inductive Setup.Notes (setup : Setup σ ι) : Note → Prop
  | log (line : LogLine) : setup.Notes (.log line)
  | progress (event : Event) : setup.Notes (.progress event)
  | start (shared : σ) (now : Float) (component : String) (capture : Bool) {n : Note}
    (mem : n ∈ (setup.runner.start shared now component capture).2.notes) : setup.Notes n
  | resume (shared : σ) (now : Float) (invocation : ι) (wake : Wake) {n : Note}
    (mem : n ∈ (setup.runner.resume shared now invocation wake).2.notes) : setup.Notes n

/-- The journal grows, and by such notes only. -/
def Noted (setup : Setup σ ι) (s s' : State σ ι) : Prop :=
  ∃ new, s'.journal = new ++ s.journal ∧ ∀ e ∈ new, setup.Notes e.note

namespace Noted

theorem of_journal (h : s'.journal = s.journal) : Noted setup s s' :=
  ⟨[], h, by simp⟩

theorem refl (s : State σ ι) : Noted setup s s :=
  of_journal rfl

theorem trans (h : Noted setup s s') (h' : Noted setup s' s'') : Noted setup s s'' := by
  obtain ⟨new, hnew, hnotes⟩ := h
  obtain ⟨new', hnew', hnotes'⟩ := h'
  refine ⟨new' ++ new, by rw [hnew', hnew, List.append_assoc], fun e he ↦ ?_⟩
  exact (List.mem_append.1 he).elim (hnotes' e) (hnotes e)

theorem notes (h : Noted setup s s') (hs : ∀ e ∈ s.journal, setup.Notes e.note) :
    ∀ e ∈ s'.journal, setup.Notes e.note := by
  obtain ⟨new, hnew, hnotes⟩ := h
  rw [hnew]
  exact fun e he ↦ (List.mem_append.1 he).elim (hnotes e) (hs e)

theorem note (s : State σ ι) {n : Note} (h : setup.Notes n) : Noted setup s (s.note n) :=
  ⟨[⟨s.now, n⟩], rfl, by simpa using h⟩

theorem noteAll (s : State σ ι) {notes : List Note} (h : ∀ n ∈ notes, setup.Notes n) :
    Noted setup s (s.noteAll notes) := by
  rw [State.noteAll_eq]
  refine ⟨_, rfl, fun e he ↦ ?_⟩
  obtain ⟨n, hn, rfl⟩ := List.mem_map.1 (List.mem_reverse.1 he)
  exact h n hn

theorem foldl {α : Type} {f : State σ ι → α → State σ ι} (h : ∀ s a, Noted setup s (f s a))
    (l : List α) (s : State σ ι) : Noted setup s (l.foldl f s) := by
  induction l generalizing s with
  | nil => exact refl s
  | cons a l ih => exact (h s a).trans (ih (f s a))

theorem of_routine (h : Grows IsRoutine s s') : Noted setup s s' :=
  h.mono fun n hn ↦ by
    obtain ⟨line, rfl⟩ | ⟨event, rfl⟩ := hn.cases
    · exact .log line
    · exact .progress event

theorem emit (s : State σ ι) (e : Event) : Noted setup s (setup.emit s e).1 :=
  of_routine (emit_grows s e (.debug _ _) (.progress e))

/-! ## Turns about a place -/

theorem conclude (i : Nat) (component : String) (w : Worker ι) (answer : Answer) (s : State σ ι) :
    Noted setup s (conclude setup i component w answer s) := by
  have hemit (e : Event) : Noted setup s (setup.emit s e).1 := emit s e
  unfold Run.conclude
  dsimp only
  split <;> exact (hemit _).trans (of_journal rfl)

theorem apply (i : Nat) (w : Worker ι) {reply : Reply ι Ending}
    (h : ∀ n ∈ reply.notes, setup.Notes n) (s : State σ ι) :
    Noted setup s (apply i w reply s).1 := by
  have hnotes := noteAll s h
  unfold Run.apply
  split
  · exact hnotes.trans (of_journal rfl)
  · exact hnotes.trans (of_journal rfl)
  · next keep alarms _ =>
    have hset (s : State σ ι) : Noted setup s
        (alarms.foldl (fun s a ↦ s.set a.2 (.ring i w.attempt a.1)) s) := by
      refine foldl (fun s a ↦ ?_) alarms s
      exact of_journal rfl
    have hkept := hset
      { s.noteAll reply.notes with timers := dropTimers i keep (s.noteAll reply.notes).timers }
    exact (hnotes.trans (of_journal rfl)).trans (hkept.trans (of_journal rfl))

theorem setLimit (i attempt : Nat) (s : State σ ι) : Noted setup s (setLimit setup i attempt s) := by
  refine of_journal ?_
  unfold Run.setLimit
  split
  · rfl
  · split <;> rfl

theorem startAttempt (i : Nat) (component : String) (w : Worker ι) (s : State σ ι) :
    Noted setup s (startAttempt setup i component w s).1 :=
  (setLimit i w.attempt s).trans (apply i w (fun _ ↦ .start _ _ _ _) _)

theorem assessmentNotes (policy : Policy) (expired : Bool) (outstanding : Nat) (component : String)
    (ending : Ending) :
    ∀ n ∈ assessmentNotes policy expired outstanding component ending, setup.Notes n := by
  intro n hn
  obtain ⟨line, rfl⟩ := assessmentNotes_log expired outstanding ending n hn
  exact .log line

theorem endAttempt {component : String} {again : Option (Worker ι → State σ ι → State σ ι)}
    (h : ∀ f ∈ again, ∀ w s, Noted setup s (f w s)) (w : Worker ι) (ending : Ending)
    (s : State σ ι) : Noted setup s (endAttempt setup i component again w ending s) := by
  have hnotes : Noted setup s (s.noteAll (Run.assessmentNotes setup.policy w.released.expired
      w.released.outstanding component ending)) :=
    noteAll s (assessmentNotes _ _ _ _ _)
  unfold Run.endAttempt
  dsimp only
  refine hnotes.trans ?_
  split
  · exact of_journal rfl
  · split
    · cases again with
      | none => exact conclude i component _ _ _
      | some f => exact (note _ (.log _)).trans (h f rfl _ _)
    · exact conclude i component _ _ _

theorem attempt_of {component : String} {left : Nat}
    (h : ∀ f ∈ further setup i component left, ∀ w s, Noted setup s (f w s)) (w : Worker ι)
    (s : State σ ι) : Noted setup s (attempt setup i component left w s) := by
  rw [attempt_eq]
  have hemit : Noted setup s
      (setup.emit s { component := component, phase := .started, attempt := w.attempt }).1 :=
    emit s _
  split
  · next heq =>
    rw [heq] at hemit
    exact hemit.trans (of_journal rfl)
  · next s₁ heq =>
    rw [heq] at hemit
    have hstart : Noted setup s₁ (Run.startAttempt setup i component w s₁).1 :=
      startAttempt i component w s₁
    split
    · next heq => exact hemit.trans (by rwa [heq] at hstart)
    · next heq =>
      rw [heq] at hstart
      exact (hemit.trans hstart).trans (endAttempt h w _ _)

/-- Attempts that follow each other within one turn: by induction on the attempts left. -/
theorem attempt (i : Nat) (component : String) (left : Nat) (w : Worker ι) (s : State σ ι) :
    Noted setup s (attempt setup i component left w s) := by
  induction left generalizing w s with
  | zero => exact attempt_of (fun f hf ↦ by cases hf) w s
  | succ left ih =>
    refine attempt_of (fun f hf ↦ ?_) w s
    obtain rfl : Run.attempt setup i component left = f := by simpa [further] using hf
    exact ih

theorem further (i : Nat) (component : String) (left : Nat) :
    ∀ f ∈ further setup i component left, ∀ w s, Noted setup s (f w s) := by
  intro f hf
  cases left with
  | zero => cases hf
  | succ left =>
    obtain rfl : Run.attempt setup i component left = f := by simpa [Run.further] using hf
    exact attempt i component left

theorem work (i : Nat) (s : State σ ι) : Noted setup s (work setup i s) := by
  unfold Run.work
  split
  · next component w _ =>
    split
    · exact attempt i component _ w s
    · next invocation _ rung interrupted _ =>
      have hresume (n : Note) :
          n ∈ (setup.runner.resume s.shared s.now invocation ⟨rung, interrupted⟩).2.notes →
            setup.Notes n :=
        .resume _ _ _ _
      generalize setup.runner.resume s.shared s.now invocation ⟨rung, interrupted⟩ = resumed at hresume
      have happly : Noted setup s (Run.apply i w resumed.2 { s with shared := resumed.1 }).1 :=
        (of_journal rfl).trans (apply i w hresume _)
      dsimp only
      split
      · next heq => rwa [heq] at happly
      · next heq =>
        rw [heq] at happly
        exact happly.trans (endAttempt (further i component _) w _ _)
    · exact refl s
  · exact refl s

/-! ## Runs -/

theorem handle (t : Turn) (s : State σ ι) : Noted setup s (handle setup t s) := by
  cases t with
  | work i => exact work i s
  | coordinate => exact of_routine (coordinate_grows s)
  | expire | ring | cancel | watch | notice =>
    refine of_journal (handle_journal setup ?_ ?_ s) <;> nofun

theorem step (s : State σ ι) : Noted setup s (step setup s) := by
  unfold Run.step
  split
  · exact (of_journal rfl).trans (handle _ _)
  · exact of_journal rfl

theorem steps (n : Nat) (s : State σ ι) : Noted setup s (steps setup n s) :=
  steps_induction (fun t _ h ↦ h.trans (step t)) (refl s) n

end Noted

/-- Whatever a run leaves in its journal is a log line, a progress event or a note of its runner. -/
theorem execute_notes (setup : Setup σ ι) (cancellation : Cancellation) (now : Float) (shared : σ)
    (components : List String) :
    ∀ e ∈ (execute setup cancellation now shared components).journal, setup.Notes e.note := by
  have hbegin : ∀ e ∈ (begin setup cancellation now shared components).journal, setup.Notes e.note := by
    refine (Noted.of_routine (fill_grows _)).notes fun e he ↦ ?_
    rw [List.mem_singleton.1 he]
    exact .log _
  intro e he
  exact (Noted.steps _ _).notes hbegin e (List.mem_reverse.1 he)

end Testbed.Run
