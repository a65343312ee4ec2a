import Testbed.Proofs.Run.Completeness
import Testbed.Proofs.Run.Invocations

/-!
# After the halt

Once a run that fails fast has recorded a failure, it starts nothing more.  What is underway goes on,
with all the attempts that the policy allows, so that the runner may still be called: but only for
components that it was called for before.
-/

namespace Testbed

open Run Clock

namespace Run

variable {p : Production} {lots : Nat → Lot} {s s' s'' : ScriptState} {t : Turn} {i j : Nat} {c : String}

/-! ## What a scene tells of invocations -/

/-- What a scripted run waits for has no aftermath. -/
theorem Play.isPlain (hs : Play p lots s) {slot : Slot Rehearsal.Invocation}
    (hslot : s.slot? i = some slot) : slot.IsPlain := by
  rw [Play] at hs
  split at hs
  · obtain ⟨c, hc⟩ := hs.toScene.exists_component hslot
    exact (hs.standing i c hc).isPlain slot hslot
  · obtain ⟨c, hc⟩ := hs.2.toScene.exists_component hslot
    exact (hs.2.standing i c hc).isPlain slot hslot
  · obtain ⟨c, hc⟩ := hs.2.toScene.exists_component hslot
    obtain ⟨o, ho, -⟩ := hs.2.settles hc
    obtain rfl := Option.some_inj.1 (ho.symm.trans hslot)
    intro w invocation awaits signals hw
    cases hw

/-- A turn about a place adds at most one invocation to a scripted run. -/
theorem Play.handle_invoked (hs : Play p lots (s.before t)) (ht : t.place? = some i) :
    ∃ c, (∀ place, s.places[i]? = some place → place.component = c) ∧
      Invoked p.policy i c s (handle p.setup t s) := by
  obtain ⟨c, hc⟩ : ∃ c, ∀ place, s.places[i]? = some place → place.component = c := by
    cases s.places[i]? with
    | none => exact ⟨"", by simp⟩
    | some place => exact ⟨place.component, fun _ h ↦ by rw [Option.some_inj.1 h]⟩
  exact ⟨c, hc, Run.handle_invoked ht (fun slot h ↦ hs.isPlain h) hc⟩

theorem Play.untouched_of_pending (hs : Play p lots s) (hi : s.slot? i = some .pending) :
    lots i = .untouched := by
  have hrunning {c : String} {τ : Float} (h : OnCourse (p.role c) i τ (s.view i c)) : False := by
    cases h with
    | fresh slot => cases slot.symm.trans hi
    | underway attempt start w slot => cases slot.symm.trans hi
    | finished w slot => cases slot.symm.trans hi
    | settled o slot => cases slot.symm.trans hi
  obtain ⟨stand, hscene⟩ := hs.scene
  obtain ⟨c, hc⟩ := hscene.exists_component hi
  cases hlot : lots i with
  | untouched => rfl
  | started τ =>
    rw [Play] at hs
    split at hs
    · have h := hs.standing i c hc
      rw [hlot] at h
      exact (hrunning h).elim
    · have h := hs.2.standing i c hc
      rw [hlot] at h
      obtain ⟨h, -⟩ | h := h
      · exact (hrunning h).elim
      · cases h with
        | waits w cue awaits rung slot => cases slot.symm.trans hi
        | left w slot => cases slot.symm.trans hi
    · obtain ⟨o, ho, -⟩ := hs.2.settles hc
      cases ho.symm.trans hi

/-- The runner was called for what is underway. -/
theorem Play.called_of_isInvoked (hs : Play p lots s) (hc : p.components[i]? = some c)
    (hi : s.isInvoked i = true) : lots i ≠ .untouched ∧ p.earlier c < s.shared.count c := by
  obtain ⟨slot, hslot, hinvoked⟩ := (Option.any_eq_true _ _).1 hi
  have hcourse {τ : Float} (h : OnCourse (p.role c) i τ (s.view i c)) :
      p.earlier c < s.shared.count c := by
    cases h with
    | fresh slot => cases slot.symm.trans hslot; cases hinvoked
    | underway attempt start w slot pos instant course pace calls =>
      change s.shared.count c = p.earlier c + attempt at calls
      omega
    | finished w slot idle past calls => exact calls
    | settled o slot outcome idle past calls => exact calls
  have hpending {v : View} (h : v.slot = some .pending) (hv : v.slot = some slot) : False := by
    cases h.symm.trans hv
    cases hinvoked
  rw [Play] at hs
  split at hs
  · have h := hs.standing i c hc
    cases hlot : lots i with
    | untouched => rw [hlot] at h; exact (hpending h.2 hslot).elim
    | started τ => rw [hlot] at h; exact ⟨by simp, hcourse h⟩
  · have h := hs.2.standing i c hc
    cases hlot : lots i with
    | untouched => rw [hlot] at h; exact (hpending h.2 hslot).elim
    | started τ =>
      rw [hlot] at h
      refine ⟨by simp, ?_⟩
      obtain ⟨h, -⟩ | h := h
      · exact hcourse h
      · cases h with
        | waits w cue awaits rung slot stage aftermath outstanding turn calls => exact calls
        | left w slot calls => exact calls
  · obtain ⟨o, ho, -⟩ := hs.2.settles hc
    cases ho.symm.trans hslot
    cases hinvoked

/-! ## Turns that start nothing -/

section Slots

variable {σ ι : Type} {setup : Setup σ ι} {s s' : State σ ι} {q : Slot ι → Bool}

/-- What settling leaves alone is the same after the ended work is collected. -/
theorem collected_any (hq : ∀ slot, q slot.settle = q slot) (setup : Setup σ ι) (s : State σ ι)
    (i : Nat) : ((s.collected setup).slot? i).any q = (s.slot? i).any q := by
  obtain ⟨k, hk, -⟩ := s.collected_slot? setup
  rw [hk]
  split
  · rw [State.slot?]
    cases s.places[i]? with
    | none => rfl
    | some place => exact hq place.slot
  · rfl

theorem any_of_places {f : Place ι → Place ι} (h : s'.places = s.places.map f)
    (hq : ∀ place, q (f place).slot = true → q place.slot = true) (i : Nat)
    (hi : (s'.slot? i).any q = true) : (s.slot? i).any q = true := by
  rw [State.slot?, h, List.getElem?_map] at hi
  rw [State.slot?]
  cases hp : s.places[i]? with
  | none => simp [hp] at hi
  | some place =>
    rw [hp] at hi
    exact hq place hi

theorem Turned.isActive_of (h : Turned i s s') (j : Nat) (hj : s'.isActive j = true) :
    s.isActive j = true := by
  obtain h | ⟨s₁, w, f, hs, h, rfl⟩ := h
  · rwa [← h.isActive_eq]
  · by_cases hij : j = i
    · rwa [hij]
    · rwa [State.isActive, finish_slot?_ne w f s₁ hij, h.slot?_ne hij] at hj

/-- No component is started any more, and all that were started have begun. -/
structure Shut (s : State σ ι) : Prop where
  closed : s.halted = true ∨ s.cancelled = true
  fresh : ∀ i, s.isFresh i = false

theorem Shut.filled (hs : s.halted = true ∨ s.cancelled = true) (setup : Setup σ ι) :
    s.filled setup = s := by
  rw [State.filled, if_pos (by simpa using hs)]

/-- A property of slots that no turn of the coordinator brings about by itself. -/
structure Slot.Lasting (q : Slot ι → Bool) : Prop where
  settle (slot : Slot ι) : q slot.settle = q slot
  interrupted (slot : Slot ι) : q slot.interrupted = q slot
  skip (reason : String) (place : Place ι) : q (place.skip reason).slot = true → q place.slot = true
  drained (place : Place ι) : q place.drained.slot = true → q place.slot = true

theorem Slot.lasting_isActive : Slot.Lasting (Slot.isActive : Slot ι → Bool) where
  settle := Slot.isActive_settle
  interrupted := Slot.isActive_interrupted
  skip reason place h := by rwa [Place.isActive_skip] at h
  drained place h := by simp [Place.isActive_drained] at h

theorem Slot.lasting_isFresh : Slot.Lasting (Slot.isFresh : Slot ι → Bool) where
  settle := Slot.isFresh_settle
  interrupted := Slot.isFresh_interrupted
  skip reason place h := by rcases place with ⟨_, _ | _ | _⟩ <;> exact h
  drained place h := by
    have hactive := Slot.isActive_of_isFresh h
    simp [Place.isActive_drained] at hactive

/-- The coordinator starts no work if it leaves the run halted or cancelled. -/
theorem Slot.Lasting.coordinate (hq : Slot.Lasting q) (quiet : setup.IsQuiet)
    (hs : (coordinate setup s).halted = true ∨ (coordinate setup s).cancelled = true) (i : Nat)
    (hi : ((coordinate setup s).slot? i).any q = true) : (s.slot? i).any q = true := by
  have hcollected : ((s.collected setup).slot? i).any q = (s.slot? i).any q :=
    collected_any hq.settle setup s i
  have hdrain {s : State σ ι} (cause : Option Abort) (hi : ((drain cause s).slot? i).any q = true) :
      (s.slot? i).any q = true := by
    refine any_of_places (f := Place.interrupted) (by rw [drain_eq]) (fun place h ↦ ?_) i hi
    rwa [Place.interrupted, hq.interrupted] at h
  have hconclude {s : State σ ι} (cause : Option Abort)
      (hi : ((concludeDrain setup cause s).slot? i).any q = true) : (s.slot? i).any q = true := by
    cases cause with
    | none =>
      obtain ⟨new, heq, -⟩ := concludeDrain_eq_none quiet s
      exact any_of_places (f := fun place ↦ place.drained.skip (skipReason s.cancelled))
        (by rw [heq]) (fun place h ↦ hq.drained _ (hq.skip _ _ h)) i hi
    | some abort =>
      obtain ⟨new, heq, -⟩ := concludeDrain_eq_some quiet abort s
      rwa [heq] at hi
  have hfill {s : State σ ι} (hs : (fill setup s).halted = true ∨ (fill setup s).cancelled = true)
      (hi : ((fill setup s).slot? i).any q = true) : (s.slot? i).any q = true := by
    rw [fill_halted quiet, (Coordinated.fill quiet s).cancelled] at hs
    rw [fill_eq, Shut.filled hs] at hi
    split at hi
    · obtain ⟨new, heq, -⟩ := complete_eq quiet s
      exact any_of_places (f := Place.skip (skipReason s.cancelled)) (by rw [heq])
        (fun place h ↦ hq.skip _ _ h) i hi
    · exact hi
  revert hs hi
  unfold Run.coordinate
  split
  · rw [← hcollected, collect_eq]
    split
    · exact fun _ ↦ hdrain _
    · split
      · split
        · exact fun _ ↦ hconclude (s := (s.collected setup).note _) none
        · exact fun _ ↦ hdrain (s := (s.collected setup).note _) none
      · exact hfill
  · exact fun _ ↦ hconclude _
  · exact fun _ ↦ id

theorem Shut.taken (quiet : setup.IsQuiet) (hs : Shut s)
    (hfresh : ∀ i, (handle setup t s).isFresh i = true → s.isFresh i = true) :
    Shut (handle setup t s) where
  closed := hs.closed.imp (handle_taken quiet t s).halted (handle_taken quiet t s).cancelled
  fresh i := by
    by_contra h
    have hi := hfresh i (by simpa using h)
    rw [hs.fresh i] at hi
    cases hi

end Slots

/-- How a run goes on that starts no components: less and less is underway, and the runner is called
for what was underway. -/
structure Ebbs (p : Production) (s s' : ScriptState) : Prop where
  active : ∀ i, s'.isActive i = true → s.isActive i = true
  calls : ∃ new, s'.shared.calls = s.shared.calls ++ new ∧ ∀ call ∈ new,
    ∃ i, p.components[i]? = some call.component ∧ s.isActive i = true

namespace Ebbs

theorem of_shared (hactive : ∀ i, s'.isActive i = true → s.isActive i = true)
    (hshared : s'.shared = s.shared) : Ebbs p s s' :=
  ⟨hactive, [], by rw [hshared, List.append_nil], nofun⟩

theorem refl (p : Production) (s : ScriptState) : Ebbs p s s :=
  of_shared (fun _ ↦ id) rfl

theorem trans (h : Ebbs p s s') (h' : Ebbs p s' s'') : Ebbs p s s'' where
  active i hi := h.active i (h'.active i hi)
  calls := by
    obtain ⟨new, hnew, hcalls⟩ := h.calls
    obtain ⟨new', hnew', hcalls'⟩ := h'.calls
    refine ⟨new ++ new', by rw [hnew', hnew, List.append_assoc], fun call hcall ↦ ?_⟩
    obtain hcall | hcall := List.mem_append.1 hcall
    · exact hcalls call hcall
    · obtain ⟨i, hi, hactive⟩ := hcalls' call hcall
      exact ⟨i, hi, h.active i hactive⟩

end Ebbs

/-- A turn about a place in a run that starts no components. -/
theorem Shut.turned (hs : Shut s) (hplay : Play p lots (s.before t)) (ht : t.place? = some i) :
    Shut (handle p.setup t s) ∧ Ebbs p s (handle p.setup t s) := by
  have hturned := handle_turned p.setup_isQuiet ht s
  refine ⟨hs.taken p.setup_isQuiet fun j ↦ hturned.isFresh_of, hturned.isActive_of, ?_⟩
  obtain ⟨c, hc, hinvoked⟩ := hplay.handle_invoked ht
  obtain hcalls | ⟨hactive, hcalls⟩ := hinvoked.calls
  · exact ⟨[], by rw [hcalls, List.append_nil], nofun⟩
  · refine ⟨_, hcalls, fun call hcall ↦ ⟨i, ?_, hactive⟩⟩
    obtain rfl := List.mem_singleton.1 hcall
    obtain ⟨slot, hslot, -⟩ := (Option.any_eq_true _ _).1 hactive
    obtain ⟨c', hplace⟩ := State.slot?_eq_some.1 hslot
    obtain ⟨stand, hscene⟩ := hplay.scene
    rw [hscene.of_place hplace, hc _ hplace]

/-- A step of a run that starts no components. -/
theorem Shut.step (hplay : Play p lots s) (hs : Shut s) :
    Shut (Run.step p.setup s) ∧ Ebbs p s (Run.step p.setup s) := by
  unfold Run.step
  split
  · next t queue hqueue =>
    rw [State.eq_before hqueue] at hplay
    have hs' : Shut { s with queue := queue } := ⟨hs.closed, hs.fresh⟩
    have hsame : Ebbs p s { s with queue := queue } := .of_shared (fun _ ↦ id) rfl
    obtain ⟨i, ht⟩ | rfl | ⟨ht, hne⟩ := t.kinds
    · exact (hs'.turned hplay ht).imp_right hsame.trans
    · have hclosed := hs'.closed.imp (handle_taken p.setup_isQuiet .coordinate _).halted
        (handle_taken p.setup_isQuiet .coordinate _).cancelled
      exact ⟨hs'.taken p.setup_isQuiet (Slot.lasting_isFresh.coordinate p.setup_isQuiet hclosed),
        .of_shared (Slot.lasting_isActive.coordinate p.setup_isQuiet hclosed)
          (Coordinated.coordinate p.setup_isQuiet { s with queue := queue }).shared⟩
    · have htells := handle_tells p.setup ht hne { s with queue := queue }
      refine ⟨hs'.taken p.setup_isQuiet fun j hj ↦ ?_, .of_shared (fun j hj ↦ ?_) htells.shared⟩
      · rwa [State.isFresh, htells.slot?] at hj
      · rwa [State.isActive, htells.slot?] at hj
  · exact ⟨⟨hs.closed, hs.fresh⟩, .of_shared (fun _ ↦ id) rfl⟩

/-- A run that starts no components any more keeps the lots of all of them. -/
theorem Shut.steps (sound : p.Sound) (hcontrol : Control s) (hplay : Play p lots s) (hs : Shut s)
    (n : Nat) : Play p lots (Run.steps p.setup n s) ∧ Ebbs p s (Run.steps p.setup n s) := by
  induction n generalizing s with
  | zero => exact ⟨hplay, .refl p s⟩
  | succ n ih =>
    rw [Run.steps]
    split
    · exact ⟨hplay, .refl p s⟩
    · next hdone =>
      rw [Bool.not_eq_true] at hdone
      obtain ⟨hshut, hebbs⟩ := hs.step hplay
      obtain ⟨lots', hplay', honward⟩ := hplay.step sound hcontrol hdone
      obtain rfl : lots' = lots := by
        refine funext fun i ↦ (honward i).resolve_right ?_
        rintro ⟨-, -, hcancelled, hhalted⟩
        obtain h | h := hs.closed
        · simp [step_halted p.setup_isQuiet h] at hhalted
        · simp [h] at hcancelled
      exact (ih (hcontrol.step p.setup_isQuiet hdone) hplay' hshut).imp_right hebbs.trans

/-! ## The halt -/

/-- When a run is halted, no component is about to make its first attempt. -/
def State.HaltsClean (s : ScriptState) : Prop :=
  s.halted = true → ∀ i, s.isFresh i = false

theorem State.HaltsClean.step (hcontrol : Control s) (hdone : s.isDone = false) (hs : s.HaltsClean) :
    (Run.step p.setup s).HaltsClean := by
  unfold Run.step
  split
  · next t queue hqueue =>
    obtain ⟨i, ht⟩ | rfl | ⟨ht, hne⟩ := t.kinds
    · have hturned := handle_turned p.setup_isQuiet ht { s with queue := queue }
      intro hhalted j
      by_contra hj
      have hfresh := hs (hturned.halted.symm.trans hhalted) j
      rw [show s.isFresh j = true from hturned.isFresh_of (by simpa using hj)] at hfresh
      cases hfresh
    · rw [State.eq_before hqueue] at hcontrol
      have hready := hcontrol.ready hdone
      intro hhalted j
      by_contra hj
      have hfresh := Slot.lasting_isFresh.coordinate p.setup_isQuiet (.inl hhalted) j
        (by simpa [State.isFresh, handle] using hj)
      rw [show (({ s with queue := queue } : ScriptState).slot? j).any Slot.isFresh = _ from
        hready.fresh j] at hfresh
      cases hfresh
    · have htold := told_of_place_none p.setup ht hne { s with queue := queue }
      intro hhalted j
      rw [State.isFresh, State.slot?, htold.places]
      exact hs (htold.halted.symm.trans hhalted) j
  · exact hs

theorem State.HaltsClean.steps (hcontrol : Control s) (hs : s.HaltsClean) (n : Nat) :
    (Run.steps p.setup n s).HaltsClean :=
  (steps_induction (P := fun s ↦ Control s ∧ s.HaltsClean)
    (fun _ hdone h ↦ ⟨h.1.step p.setup_isQuiet hdone, h.2.step h.1 hdone⟩) ⟨hcontrol, hs⟩ n).2

/-- Once a failure is recorded in a run that fails fast, the run is shut unless it is over. -/
theorem Play.shut (hcontrol : Control s) (hplay : Play p lots s) (hs : s.HaltsClean)
    (hfast : p.policy.failFast = true) {o : Outcome} (hsettles : s.Settles i o)
    (hhalting : halting o.status = true) : Shut s ∨ s.isDone = true := by
  rw [Play] at hplay
  have hcontrolled := hcontrol.controlled
  rw [State.Controlled] at hcontrolled
  split at hplay
  · have hhalted := hplay.halts hfast i o hsettles hhalting
    exact .inl ⟨.inl hhalted, hs hhalted⟩
  · next hco =>
    rw [hco] at hcontrolled
    exact .inl ⟨.inr hplay.2.cancelled, hcontrolled.fresh⟩
  · next hco => exact .inr (by simp [State.isDone, hco])

theorem Control.fresh_of_isDone (hs : Control s) (hdone : s.isDone = true) (i : Nat) :
    s.isFresh i = false := by
  have hcontrolled := hs.controlled
  rw [State.isDone] at hdone
  split at hdone
  · next hco =>
    rw [State.Controlled, hco] at hcontrolled
    by_contra h
    obtain ⟨slot, hslot, hfresh⟩ := (Option.any_eq_true _ _).1 (Bool.eq_true_of_not_eq_false h)
    obtain ⟨c, hc⟩ := State.slot?_eq_some.1 hslot
    have hinactive := List.countP_eq_zero.1 hcontrolled _ (List.mem_of_getElem? hc)
    exact hinactive (Slot.isActive_of_isFresh hfresh)
  · cases hdone

/-- The outcome of a place that is settled. -/
def State.outcome? (s : ScriptState) (i : Nat) : Option Outcome :=
  match s.slot? i with
  | some (.settled o) => some o
  | _ => none

theorem State.outcome?_eq_some {o : Outcome} : s.outcome? i = some o ↔ s.Settles i o := by
  unfold outcome? Settles
  split <;> simp_all

variable {cancellation : Cancellation} {now : Float} {shared : Rehearsal.Shared}

/-- What is left of a run that fails fast once a failure is recorded. -/
theorem final_of_settles (sound : p.Sound) (hearlier : ∀ c, p.earlier c = shared.count c)
    (hnow : IsInstant now) (hdelays : ∀ delay ∈ cancellation.delays, 0 ≤ delay)
    (hfast : p.policy.failFast = true) {o : Outcome} (hhalting : halting o.status = true) {n : Nat}
    (hs : s = steps p.setup n (begin p.setup cancellation now shared p.components))
    (hsettles : s.Settles i o) :
    ∃ lots, Play p lots s ∧ (∀ i, s.isFresh i = false) ∧
      Closed p lots (final p.setup cancellation now shared p.components) ∧
      Ebbs p s (final p.setup cancellation now shared p.components) := by
  obtain ⟨lots, hplay, hcontrol⟩ := steps_play sound hearlier hnow hdelays n
  have hclean : s.HaltsClean := by
    rw [hs]
    refine State.HaltsClean.steps (.begin p.setup_isQuiet _ _ _ _) (fun h ↦ ?_) n
    rw [begin_eq, fill_halted p.setup_isQuiet] at h
    cases h
  have hdone := final_isDone sound hearlier hnow hdelays
  have hfinal := final_eq_steps hdone n
  rw [← hs] at hplay hcontrol hfinal
  refine ⟨lots, hplay, ?_⟩
  rw [hfinal] at hdone ⊢
  obtain hshut | hover := hplay.shut hcontrol hclean hfast hsettles hhalting
  · exact ⟨hshut.fresh, (hshut.steps sound hcontrol hplay _).imp_left fun h ↦ (h.closed hdone).1⟩
  · rw [steps_of_isDone hover]
    exact ⟨hcontrol.fresh_of_isDone hover, (hplay.closed hover).1, .refl p s⟩

section Execution

variable {registry : Registry} {components : List String} {script : Script} {policy : Policy}

/-- Once a failure is recorded in a run that fails fast, the runner is called only for components that
are underway and that it was called for before.  Those are tested to the end unless the run is
cancelled, and what was not started is skipped. -/
theorem execute_failFast_starts_nothing (shared : Rehearsal.Shared)
    (hlist : registry.list = .ok components) (hparallelism : 1 ≤ policy.parallelism)
    (orderly : script.Orderly) (hnow : IsInstant now) (hdelays : ∀ delay ∈ cancellation.delays, 0 ≤ delay)
    (hfast : policy.failFast = true) (n : Nat) {o : Outcome}
    (hsettles : (steps (script.setup policy) n
      (begin (script.setup policy) cancellation now shared components)).Settles i o)
    (hfailed : o.status = .failed ∨ o.status = .errored) :
    let s := steps (script.setup policy) n
      (begin (script.setup policy) cancellation now shared components)
    let ended := execute (script.setup policy) cancellation now shared components
    let cancelled := (final (script.setup policy) cancellation now shared components).cancelled
    ∃ report new, ended.report = .ok report ∧ ended.shared.calls = s.shared.calls ++ new ∧
      (∀ call ∈ new, ∃ j, components[j]? = some call.component ∧ s.isActive j = true ∧
        shared.count call.component < s.shared.count call.component) ∧
      (∀ j c, components[j]? = some c → s.isActive j = true → cancelled = false →
        ∃ τ o, (((Production.of script policy shared components).role c).course τ).2 = .outcome o ∧
          report.outcomes[j]? = some o) ∧
      ∀ j c, components[j]? = some c → s.slot? j = some .pending →
        report.outcomes[j]? = some (skipped c (skipReason cancelled)) ∧ ¬ ended.Called shared c := by
  intro s ended cancelled
  have sound := Production.sound_of shared hlist orderly hparallelism
  obtain ⟨lots, hplay, hfresh, hclosed, hebbs⟩ := final_of_settles sound (fun _ ↦ rfl) hnow hdelays
    hfast (by simpa [halting] using hfailed) (s := s) rfl hsettles
  obtain ⟨-, -, hreport⟩ := final_closed shared hlist hparallelism orderly hnow hdelays
  have hinvoked {j : Nat} (hactive : s.isActive j = true) : s.isInvoked j = true := by
    rwa [State.isActive_eq, hfresh j, Bool.false_or] at hactive
  obtain ⟨new, hnew, hcalls⟩ := hebbs.calls
  refine ⟨_, new, hreport, hnew, fun call hcall ↦ ?_, fun j c hc hactive hcancelled ↦ ?_,
    fun j c hc hpending ↦ ?_⟩
  · obtain ⟨j, hj, hactive⟩ := hcalls call hcall
    exact ⟨j, hj, hactive, (hplay.called_of_isInvoked hj (hinvoked hactive)).2⟩
  · obtain ⟨o, ho⟩ := hclosed.exists_outcome hc
    have hfate := hclosed.fate hc ho
    have hlot := (hplay.called_of_isInvoked hc (hinvoked hactive)).1
    generalize lots j = lot at hfate hlot
    cases hfate with
    | untouched => exact absurd rfl hlot
    | course course => exact ⟨_, o, course, ho⟩
    | interrupted h => cases hcancelled.symm.trans h
  · have hlot := hplay.untouched_of_pending hpending
    obtain ⟨o, ho⟩ := hclosed.exists_outcome hc
    obtain rfl := hclosed.skipped_of_untouched hc ho hlot
    exact ⟨ho, fun hcalled ↦ (hclosed.called_iff (fun _ ↦ rfl) hc).1 hcalled hlot⟩

/-- A first component that fails, and others that cannot be tested and take longer. -/
def Script.stubborn : Script where
  entries component :=
    if component = "alpha" then [.answered { status := .failed }]
    else [.raised { kind := "RuntimeError", text := "broken" }]
  delay component := if component = "alpha" then 1.0 else 2.0

theorem Script.stubborn_orderly : Script.stubborn.Orderly where
  delay component := by
    simp only [Script.stubborn]
    split <;> decide +kernel
  answered component ending h := by
    simp only [Script.stubborn] at h
    split at h
    · exact .inl ⟨_, List.mem_singleton.1 h, by simp⟩
    · exact .inr ⟨_, List.mem_singleton.1 h⟩

/-- Two components at once, with a second attempt at those that cannot be tested. -/
def Policy.stubborn : Policy where
  failFast := true
  parallelism := 2
  retries := 1

/-- A run of three components in which one fails while another one is underway. -/
def stubbornRun (n : Nat) : ScriptState :=
  steps (Script.stubborn.setup Policy.stubborn) n
    (begin (Script.stubborn.setup Policy.stubborn) .never 0.0 {} ["alpha", "beta", "gamma"])

def stubbornEnd : Ended Rehearsal.Shared :=
  execute (Script.stubborn.setup Policy.stubborn) .never 0.0 {} ["alpha", "beta", "gamma"]

/-- After twelve turns the failure is recorded. -/
theorem stubbornRun_settles : ∃ o, (stubbornRun 12).Settles 0 o ∧ o.status = .failed := by
  have hstatus : ((stubbornRun 12).outcome? 0).map (·.status) = some .failed := by decide +kernel
  obtain ⟨o, ho, hfailed⟩ := Option.map_eq_some_iff.1 hstatus
  exact ⟨o, State.outcome?_eq_some.1 ho, hfailed⟩

theorem execute_failFast_starts_nothing_stubborn :
    ∃ report new o, stubbornEnd.report = .ok report ∧
      stubbornEnd.shared.calls = (stubbornRun 12).shared.calls ++ new ∧
      report.outcomes[1]? = some o := by
  obtain ⟨o, hsettles, hfailed⟩ := stubbornRun_settles
  have hlist : (⟨["alpha", "beta", "gamma"]⟩ : Registry).list = .ok ["alpha", "beta", "gamma"] := by
    decide +kernel
  have hparallelism : 1 ≤ Policy.stubborn.parallelism := by decide
  obtain ⟨report, new, hreport, hcalls, -, hactive, -⟩ := execute_failFast_starts_nothing {} hlist
    hparallelism Script.stubborn_orderly (by decide +kernel) (by simp [Cancellation.delays]) rfl 12
    hsettles (.inl hfailed)
  obtain ⟨-, o, -, ho⟩ := hactive 1 "beta" rfl (by decide +kernel) (by decide +kernel)
  exact ⟨report, new, o, hreport, hcalls, ho⟩

/-- The component that is underway is attempted again, at a later instant. -/
theorem failFast_attempts_underway :
    ¬ ∀ (n i : Nat) (o : Outcome), (stubbornRun n).Settles i o →
      o.status = .failed ∨ o.status = .errored →
        ∀ call ∈ stubbornEnd.shared.calls, ¬ (stubbornRun n).now < call.time := by
  intro h
  obtain ⟨o, hsettles, hfailed⟩ := stubbornRun_settles
  have hlate : stubbornEnd.shared.calls.any (fun call ↦ (stubbornRun 12).now < call.time) = true := by
    decide +kernel
  obtain ⟨call, hcall, hlt⟩ := List.any_eq_true.1 hlate
  exact h 12 0 o hsettles (.inl hfailed) call hcall (by simpa using hlt)

end Execution

end Run

end Testbed
