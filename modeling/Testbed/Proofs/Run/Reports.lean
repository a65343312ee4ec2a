import Testbed.Proofs.Run.Slots

/-!
# Reports of runs

A run is aborted only by an invocation that is interrupted without having been told so, or by its
listener.  A runner whose invocations give in to nothing but interruptions therefore brings every run
that ends to a report, and the report holds one outcome for each component, in order.
-/

namespace Testbed

/-- A reply that gives in to an interruption: the invocation ends in it, or goes on as one that was
told of it. -/
def Reply.GivesIn {ι : Type} (told : ι → Prop) (reply : Reply ι Ending) : Prop :=
  match reply.next with
  | .ends ending => ending = .interrupted
  | .yields invocation => told invocation
  | .waits invocation _ _ => told invocation

/-- A runner whose invocations give in only if they were interrupted; `told` says which of them know
of an interruption. -/
structure Runner.Steadfast {σ ι : Type} (runner : Runner σ ι) (told : ι → Prop) : Prop where
  start (shared : σ) (now : Float) (component : String) (capture : Bool) :
    ¬(runner.start shared now component capture).2.GivesIn told
  resume (shared : σ) (now : Float) (invocation : ι) (wake : Wake) :
    (runner.resume shared now invocation wake).2.GivesIn told →
      told invocation ∨ wake.interrupted = true

namespace Run

variable {σ ι : Type} {setup : Setup σ ι} {i : Nat} {c : String} {s s' : State σ ι}
  {told : ι → Prop}

/-! ## Outcomes bear the names of their components -/

/-- An outcome in a slot is one of the component. -/
def Slot.Bears (c : String) (slot : Slot ι) : Prop :=
  ∀ o, slot = .settled o ∨ slot.finish? = some (.outcome o) → o.component = c

theorem Setup.Leads.finish_component {now : Float} {w w' : Worker ι} {reply : Reply ι Ending}
    (h : setup.Leads now c w reply w') {o : Outcome} (hf : w'.stage = .finished (.outcome o)) :
    o.component = c := by
  induction h with
  | yields | waits | interrupted => cases hf
  | concludes =>
    cases hf
    rfl
  | again _ _ _ _ _ _ ih => exact ih hf

theorem Slot.bears_running {w : Worker ι}
    (h : ∀ o, w.stage = .finished (.outcome o) → o.component = c) :
    (Slot.running w).Bears c := by
  rintro o (ho | ho)
  · cases ho
  · obtain ⟨_, hw, hf⟩ := Slot.finish?_eq_some.1 ho
    obtain rfl := Slot.running.inj hw
    exact h o hf

theorem Setup.keeps_bears (setup : Setup σ ι) : setup.Keeps fun c slot ↦ slot.Bears c where
  change c slot slot' h hs := by
    cases h with
    | launches => exact Slot.bears_running fun _ h ↦ by cases h
    | goes _ _ leads => exact Slot.bears_running fun _ ↦ leads.finish_component
    | rings => exact Slot.bears_running fun _ h ↦ by cases h
    | expires stage =>
      rw [Slot.interrupted, stage]
      exact Slot.bears_running fun _ h ↦ by cases h
    | settles =>
      unfold Slot.settle
      split
      · next o ho =>
        rintro o' (h | h)
        · obtain rfl : o = o' := by simpa using h
          exact hs o (.inr ho)
        · cases h
      · exact hs
  closes c slot slot' h hs := by
    cases h with
    | interrupts =>
      rintro o (h | h)
      · exact hs o (.inl (Slot.interrupted_eq_settled.1 h))
      · exact hs o (.inr (by rwa [Slot.finish?_interrupted] at h))
    | drains =>
      obtain hsame | ⟨o, hdrained, ho⟩ := slot.drained_cases c
      · rwa [hsame]
      · rw [hdrained]
        rintro o' (h | h)
        · obtain rfl := Slot.settled.inj h
          obtain ho | rfl := ho
          · exact hs o (.inr ho)
          · rfl
        · cases h
    | skips =>
      cases slot with
      | pending =>
        rintro o (h | h)
        · cases h
          rfl
        · cases h
      | running => exact hs
      | settled => exact hs

/-! ## The components of a run -/

theorem map_component {places : List (Place ι)} {f : Place ι → Place ι}
    (hf : ∀ p, (f p).component = p.component) :
    (places.map f).map (·.component) = places.map (·.component) := by
  rw [List.map_map]
  exact List.map_congr_left fun p _ ↦ hf p

theorem complete_components (quiet : setup.IsQuiet) (s : State σ ι) :
    (complete setup s).places.map (·.component) = s.places.map (·.component) := by
  obtain ⟨new, heq, -⟩ := complete_eq quiet s
  rw [heq]
  exact map_component fun p ↦ by rw [Place.skip_eq]

theorem concludeDrain_components (quiet : setup.IsQuiet) (cause : Option Abort) (s : State σ ι) :
    (concludeDrain setup cause s).places.map (·.component) = s.places.map (·.component) := by
  cases cause with
  | none =>
    obtain ⟨new, heq, -⟩ := concludeDrain_eq_none quiet s
    rw [heq]
    exact map_component fun p ↦ by rw [Place.skip_eq, Place.drained_eq]
  | some abort =>
    obtain ⟨new, heq, -⟩ := concludeDrain_eq_some quiet abort s
    rw [heq]

theorem drain_components (cause : Option Abort) (s : State σ ι) :
    (drain cause s).places.map (·.component) = s.places.map (·.component) := by
  rw [drain_eq]
  exact map_component fun _ ↦ rfl

theorem fill_components (quiet : setup.IsQuiet) (s : State σ ι) :
    (fill setup s).places.map (·.component) = s.places.map (·.component) := by
  rw [fill_eq]
  split
  · exact (complete_components quiet _).trans (filled_components setup s)
  · exact filled_components setup s

theorem Conducts.components (quiet : setup.IsQuiet) (h : Conducts setup s s') :
    s'.places.map (·.component) = s.places.map (·.component) := by
  have hcollected := collected_components setup s
  cases h with
  | waits => exact (filled_components setup _).trans hcollected
  | completes =>
    exact (complete_components quiet _).trans ((filled_components setup _).trans hcollected)
  | aborts => exact (drain_components _ _).trans hcollected
  | drains => exact (drain_components _ _).trans hcollected
  | ends => exact (concludeDrain_components quiet _ _).trans hcollected
  | drained => exact concludeDrain_components quiet _ _
  | rests => rfl

/-- No step adds, drops or moves a component. -/
theorem step_components (quiet : setup.IsQuiet) (s : State σ ι) :
    (step setup s).places.map (·.component) = s.places.map (·.component) := by
  unfold step
  split
  · next t queue _ =>
    obtain ⟨i, ht⟩ | rfl | ⟨ht, hne⟩ := t.kinds
    · exact (handle_turned quiet ht _).components
    · exact Conducts.components (s := { s with queue := queue }) quiet (coordinate_conducts setup _)
    · rw [(handle_tells setup ht hne _).places]
  · rfl

theorem steps_components (quiet : setup.IsQuiet) (n : Nat) (s : State σ ι) :
    (steps setup n s).places.map (·.component) = s.places.map (·.component) :=
  steps_induction (P := fun t ↦ t.places.map (·.component) = s.places.map (·.component))
    (fun t _ h ↦ (step_components quiet t).trans h) rfl n

/-! ## Runs that nothing aborts -/

/-- An attempt that knows of no interruption but that of its expired limit. -/
def Worker.Calm (told : ι → Prop) (w : Worker ι) : Prop :=
  match w.stage with
  | .fresh => w.expired = false ∧ w.outstanding = 0
  | .suspended invocation _ signals => w.outstanding = w.expired.toNat ∧
      (told invocation ∨ signals.interrupted = true → w.expired = true)
  | .finished f => ∃ o, f = .outcome o

def Slot.Calm (told : ι → Prop) : Slot ι → Prop
  | .running w => w.Calm told
  | _ => True

/-- Such work ends in nothing but outcomes. -/
theorem Slot.Calm.exists_outcome {slot : Slot ι} (h : slot.Calm told) {f : Finish}
    (hfinish : slot.finish? = some f) : ∃ o, f = .outcome o := by
  obtain ⟨w, rfl, hstage⟩ := Slot.finish?_eq_some.1 hfinish
  rw [Slot.Calm, Worker.Calm, hstage] at h
  exact h

theorem Worker.released_outstanding {w : Worker ι} (h : w.outstanding = w.expired.toNat) :
    w.released.outstanding = 0 := by
  cases hexpired : w.expired <;> simp [Worker.released, h, hexpired]

/-- An attempt that nothing but its limit has interrupted is judged by that. -/
theorem Worker.assess_interrupted {w : Worker ι} (h : w.outstanding = w.expired.toNat)
    (hexpired : w.expired = true) (policy : Policy) :
    w.assess policy .interrupted = .counted (timedOut policy) false := by
  rw [Worker.assess, Run.assess, released_outstanding h]
  exact if_pos ⟨hexpired, rfl⟩

theorem Setup.Leads.calm (steadfast : setup.runner.Steadfast told) {now : Float} {w w' : Worker ι}
    {reply : Reply ι Ending} (h : setup.Leads now c w reply w')
    (houtstanding : w.outstanding = w.expired.toNat)
    (hgives : reply.GivesIn told → w.expired = true) : w'.Calm told := by
  induction h with
  | yields next =>
    refine ⟨houtstanding, fun h ↦ hgives ?_⟩
    rw [Reply.GivesIn, next]
    exact h.resolve_right nofun
  | waits next =>
    refine ⟨houtstanding, fun h ↦ hgives ?_⟩
    rw [Reply.GivesIn, next]
    exact h.resolve_right nofun
  | @interrupted w reply ending next assess =>
    -- only the limit can have interrupted the attempt, and it accounts for that
    cases ending with
    | answered => cases assess
    | raised =>
      simp only [Worker.assess, Run.assess] at assess
      split at assess <;> cases assess
    | interrupted =>
      have hexpired := hgives (by rw [Reply.GivesIn, next])
      cases assess.symm.trans (Worker.assess_interrupted houtstanding hexpired setup.policy)
  | concludes => exact ⟨_, rfl⟩
  | again _ _ _ _ _ _ ih =>
    exact ih (Worker.released_outstanding houtstanding)
      fun h ↦ absurd h (steadfast.start _ _ _ _)

theorem Setup.Change.calm (steadfast : setup.runner.Steadfast told) {slot slot' : Slot ι}
    (h : setup.Change c slot slot') (hs : slot.Calm told) : slot'.Calm told := by
  cases h with
  | launches => exact ⟨rfl, rfl⟩
  | goes now answers leads =>
    rw [Slot.Calm, Worker.Calm] at hs
    cases answers with
    | starts _ _ stage =>
      rw [stage] at hs
      obtain ⟨hexpired, houtstanding⟩ := hs
      exact leads.calm steadfast (by rw [houtstanding, hexpired]; rfl)
        fun h ↦ absurd h (steadfast.start _ _ _ _)
    | resumes _ _ stage =>
      rw [stage] at hs
      obtain ⟨houtstanding, htold⟩ := hs
      exact leads.calm steadfast houtstanding fun h ↦ htold (steadfast.resume _ _ _ _ h)
  | rings alarm stage =>
    rw [Slot.Calm, Worker.Calm, stage] at hs
    exact hs
  | expires stage expired =>
    rw [Slot.Calm, Worker.Calm, stage] at hs
    rw [Slot.interrupted, stage]
    refine ⟨?_, fun _ ↦ rfl⟩
    change _ + 1 = 1
    rw [hs.1, expired]
    rfl
  | settles =>
    unfold Slot.settle
    split
    · trivial
    · exact hs

/-- While the run goes on nothing but limits interrupts its attempts; then it drains for no other
cause than its cancellation, and ends with everything settled. -/
def State.Smooth (told : ι → Prop) (s : State σ ι) : Prop :=
  match s.coordinator with
  | .waiting _ => s.All fun _ slot ↦ slot.Calm told
  | .draining _ cause => cause = none
  | .done abort => abort = none ∧ s.All fun _ slot ↦ ∃ o, slot = .settled o

namespace State.Smooth

theorem abort?_eq_none (hs : s.All fun _ slot ↦ slot.Calm told) : s.abort? setup = none :=
  (State.settle_abort _ _ _).2 fun p hp _ hfinish ↦ (hs p hp).exists_outcome hfinish

theorem complete (quiet : setup.IsQuiet) (hidle : s.runningCount = 0) :
    (complete setup s).Smooth told := by
  obtain ⟨new, heq, -⟩ := complete_eq quiet s
  rw [heq]
  refine ⟨rfl, fun p hp ↦ ?_⟩
  obtain ⟨q, hq, rfl⟩ := List.mem_map.1 hp
  have hrunning : q.slot.isRunning = false := by
    simpa using List.countP_eq_zero.1 hidle q hq
  rw [Place.skip_eq]
  cases hslot : q.slot with
  | pending => exact ⟨_, rfl⟩
  | running w => rw [hslot] at hrunning; cases hrunning
  | settled o => exact ⟨o, rfl⟩

theorem concludeDrain (quiet : setup.IsQuiet) (s : State σ ι) :
    (concludeDrain setup none s).Smooth told := by
  obtain ⟨new, heq, -⟩ := concludeDrain_eq_none quiet s
  rw [heq]
  refine ⟨rfl, fun p hp ↦ ?_⟩
  obtain ⟨q, hq, rfl⟩ := List.mem_map.1 hp
  rw [Place.skip_eq, Place.drained_eq]
  rcases q with ⟨_, _ | ⟨_, _, _, _, _ | _ | _ | _ | _⟩ | _⟩ <;> exact ⟨_, rfl⟩

theorem fill (quiet : setup.IsQuiet) (steadfast : setup.runner.Steadfast told)
    (hs : s.All fun _ slot ↦ slot.Calm told) : (fill setup s).Smooth told := by
  rw [fill_eq]
  split
  · next hidle => exact complete quiet hidle
  · exact hs.filled fun c _ _ h ↦ Setup.Change.calm steadfast (h.change (c := c))

theorem conducts (quiet : setup.IsQuiet) (steadfast : setup.runner.Steadfast told)
    (hs : s.Smooth told) (h : Conducts setup s s') : s'.Smooth told := by
  have hcalm {woken : Bool} (waiting : s.coordinator = .waiting woken) :
      s.All fun _ slot ↦ slot.Calm told := by
    rwa [Smooth, waiting] at hs
  cases h with
  | waits waiting =>
    exact ((hcalm waiting).collected fun c _ _ h ↦ Setup.Change.calm steadfast (h.change (c := c))).filled
      fun c _ _ h ↦ Setup.Change.calm steadfast (h.change (c := c))
  | completes _ _ _ idle => exact complete quiet idle
  | aborts waiting aborted =>
    rw [abort?_eq_none (hcalm waiting)] at aborted
    cases aborted
  | drains => rw [Smooth, drain_coordinator]
  | ends => exact concludeDrain quiet _
  | drained draining =>
    rw [Smooth, draining] at hs
    obtain rfl := hs
    exact concludeDrain quiet s
  | rests => exact hs

theorem of_going (hs : s.Smooth told) (hcoordinator : s'.coordinator = s.coordinator)
    (hdone : s.isDone = false)
    (hall : (s.All fun _ slot ↦ slot.Calm told) → s'.All fun _ slot ↦ slot.Calm told) :
    s'.Smooth told := by
  rw [Smooth] at hs ⊢
  rw [hcoordinator]
  split at hs
  · exact hall hs
  · exact hs
  · next hco => simp [State.isDone, hco] at hdone

/-- A turn that tells the coordinator something. -/
theorem of_told (hs : s.Smooth told) {t : Turn} (ht : t.place? = none) (hne : t ≠ .coordinate)
    (setup : Setup σ ι) : (handle setup t s).Smooth told := by
  have h := handle_tells setup ht hne s
  simp only [Smooth, All, h.places] at hs ⊢
  obtain hco | ⟨hco, hco'⟩ | ⟨left, cause, hco, hco'⟩ := h.coordinator
  · rwa [hco]
  · simpa only [hco, hco'] using hs
  · simpa only [hco, hco'] using hs

theorem step (quiet : setup.IsQuiet) (steadfast : setup.runner.Steadfast told)
    (hs : s.Smooth told) (hdone : s.isDone = false) : (step setup s).Smooth told := by
  unfold Run.step
  split
  · next t queue _ =>
    have hrest : State.Smooth told { s with queue := queue } := hs
    obtain ⟨i, ht⟩ | rfl | ⟨ht, hne⟩ := t.kinds
    · have hturned := handle_turned quiet ht { s with queue := queue }
      exact hrest.of_going hturned.coordinator hdone fun hall ↦
        hall.turned (fun _ _ _ ↦ Setup.Change.calm steadfast) hturned (handle_changed quiet ht _)
    · exact hrest.conducts quiet steadfast (coordinate_conducts setup _)
    · exact hrest.of_told ht hne setup
  · exact hs

theorem steps (quiet : setup.IsQuiet) (steadfast : setup.runner.Steadfast told)
    (hs : s.Smooth told) (n : Nat) : (steps setup n s).Smooth told :=
  steps_induction (fun _ hdone hs ↦ hs.step quiet steadfast hdone) hs n

end State.Smooth

/-! ## Beginnings and ends -/

section Begin

variable (cancellation : Cancellation) (now : Float) (shared : σ) (components : List String)

theorem begin_components (quiet : setup.IsQuiet) :
    (begin setup cancellation now shared components).places.map (·.component) = components := by
  rw [begin_eq, fill_components quiet]
  simp [State.opening, Function.comp_def]

/-- The places of a run stand for its components, at any time. -/
theorem steps_begin_components (quiet : setup.IsQuiet) (n : Nat) :
    (steps setup n (begin setup cancellation now shared components)).places.map (·.component) =
      components :=
  (steps_components quiet n _).trans (begin_components cancellation now shared components quiet)

theorem begin_bears (quiet : setup.IsQuiet) :
    (begin setup cancellation now shared components).All fun c slot ↦ slot.Bears c := by
  apply setup.keeps_bears.begin quiet
  rintro c o (h | h) <;> cases h

end Begin

/-- A run that is over has settled everything under the names of the components. -/
theorem report_components (hsettled : s.All fun _ slot ↦ ∃ o, slot = .settled o)
    (hbears : s.All fun c slot ↦ slot.Bears c) :
    s.report.outcomes.map (·.component) = s.places.map (·.component) := by
  rw [State.report]
  unfold State.All at hsettled hbears
  generalize s.places = places at hsettled hbears
  induction places with
  | nil => rfl
  | cons p places ih =>
    obtain ⟨o, ho⟩ := hsettled p List.mem_cons_self
    have hrest := ih (fun q hq ↦ hsettled q (List.mem_cons_of_mem p hq))
      fun q hq ↦ hbears q (List.mem_cons_of_mem p hq)
    simp only [List.filterMap_cons, ho, List.map_cons, hbears p List.mem_cons_self o (.inl ho)]
    exact congrArg _ hrest

section Execution

variable (quiet : setup.IsQuiet) (steadfast : setup.runner.Steadfast told)
include quiet steadfast

theorem final_smooth (cancellation : Cancellation) (now : Float) (shared : σ)
    (components : List String) : (final setup cancellation now shared components).Smooth told := by
  refine State.Smooth.steps quiet steadfast ?_ _
  exact State.Smooth.fill quiet steadfast (opening_all _ _ _ _ fun _ ↦ trivial)

/-- Nothing aborts a run of a steadfast runner. -/
theorem execute_ne_error (cancellation : Cancellation) (now : Float) (shared : σ)
    (components : List String) (abort : Abort) :
    (execute setup cancellation now shared components).report ≠ .error abort := by
  have hsmooth := final_smooth quiet steadfast cancellation now shared components
  rw [execute, State.ended]
  intro h
  dsimp only at h
  split at h
  · next hco =>
    rw [State.Smooth, hco] at hsmooth
    cases hsmooth.1
  · cases h

/-- A run of a steadfast runner that ends brings a report on its components. -/
theorem execute_reports {cancellation : Cancellation} {now : Float} {shared : σ}
    {components : List String}
    (hdone : (final setup cancellation now shared components).isDone = true) :
    ∃ r, (execute setup cancellation now shared components).report = .ok r ∧
      r.outcomes.map (·.component) = components := by
  have hsmooth := final_smooth quiet steadfast cancellation now shared components
  have hbears := setup.keeps_bears.steps quiet (begin_bears cancellation now shared components quiet)
    (turnBound setup cancellation components)
  have hcomponents := steps_begin_components cancellation now shared components quiet
    (turnBound setup cancellation components)
  rw [execute, State.ended]
  rw [State.isDone] at hdone
  split at hdone
  · next abort hco =>
    rw [State.Smooth, hco] at hsmooth
    obtain ⟨rfl, hsettled⟩ := hsmooth
    rw [hco]
    exact ⟨_, rfl, (report_components hsettled hbears).trans hcomponents⟩
  · cases hdone

end Execution

end Run

end Testbed
