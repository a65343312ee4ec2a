import Testbed.Proofs.Registry
import Testbed.Proofs.Run.Runs

/-!
# Ends of scripted runs

What a scripted run leaves: a report with the fate of each component, and a journal that tells when
the work on it started and finished.
-/

namespace Testbed

open Run Clock

namespace Run

variable {σ : Type}

/-- The instants at which the first attempt at a component was started. -/
def Ended.starts (e : Ended σ) (c : String) : List Float :=
  (e.journal.events.filter (·.2.component = c)).filterMap fun (now, e) ↦
    if e.phase = .started ∧ e.attempt = 1 then some now else none

/-- The instants at which the work on a component finished, skips aside. -/
def Ended.finishes (e : Ended σ) (c : String) : List Float :=
  (e.journal.events.filter (·.2.component = c)).filterMap fun (now, e) ↦
    if e.phase = .finished ∧ e.status ≠ some .skipped then some now else none

theorem events_reverse (j : Journal) : Journal.events j.reverse = (Journal.events j).reverse := by
  rw [Journal.events, List.filterMap_reverse, Journal.events]

theorem ended_starts (s : ScriptState) (i : Nat) (c : String) :
    s.ended.starts c = (s.view i c).starts.reverse := by
  rw [Ended.starts, State.ended, events_reverse, List.filter_reverse, List.filterMap_reverse]
  rfl

theorem ended_finishes (s : ScriptState) (i : Nat) (c : String) :
    s.ended.finishes c = (s.view i c).finishes.reverse := by
  rw [Ended.finishes, State.ended, events_reverse, List.filter_reverse, List.filterMap_reverse]
  rfl

/-- When all places have an outcome, the report has them in order. -/
theorem getElem?_filterMap_of_isSome {α β : Type} {l : List α} {f : α → Option β}
    (h : ∀ a ∈ l, (f a).isSome = true) (i : Nat) : (l.filterMap f)[i]? = l[i]?.bind f := by
  induction l generalizing i with
  | nil => rfl
  | cons a l ih =>
    obtain ⟨b, hb⟩ := Option.isSome_iff_exists.1 (h a List.mem_cons_self)
    rw [List.filterMap_cons_some hb]
    cases i with
    | zero => simp [hb]
    | succ i =>
      rw [List.getElem?_cons_succ, List.getElem?_cons_succ]
      exact ih (fun a ha ↦ h a (List.mem_cons_of_mem _ ha)) i

variable {p : Production} {lots : Nat → Lot} {s : ScriptState} {i : Nat} {c : String}

namespace Closed

theorem settles (hs : Closed p lots s) (hc : p.components[i]? = some c) :
    ∃ o, s.Settles i o ∧ Fate (p.role c) s.cancelled (s.view i c) (lots i) o :=
  hs.standing i c hc

theorem outcomes_getElem? (hs : Closed p lots s) {o : Outcome} :
    s.report.outcomes[i]? = some o ↔ s.Settles i o := by
  rw [State.report, getElem?_filterMap_of_isSome]
  · rw [State.Settles, State.slot?]
    rcases s.places[i]? with _ | ⟨_, _ | _ | _⟩ <;> simp
  · intro place hplace
    obtain ⟨i, hi⟩ := List.mem_iff_getElem?.1 hplace
    obtain ⟨o, ho, -⟩ := hs.settles (hs.toScene.of_place hi)
    rw [State.Settles, State.slot?, hi] at ho
    have hslot : place.slot = .settled o := by simpa using ho
    simp [hslot]

/-- The fate of the component at a place. -/
theorem fate (hs : Closed p lots s) (hc : p.components[i]? = some c) {o : Outcome}
    (ho : s.report.outcomes[i]? = some o) :
    Fate (p.role c) s.cancelled (s.view i c) (lots i) o := by
  obtain ⟨o', ho', hfate⟩ := hs.settles hc
  rw [hs.outcomes_getElem?.2 ho'] at ho
  rwa [← Option.some_inj.1 ho]

theorem exists_outcome (hs : Closed p lots s) (hc : p.components[i]? = some c) :
    ∃ o, s.report.outcomes[i]? = some o := by
  obtain ⟨o, ho, -⟩ := hs.settles hc
  exact ⟨o, hs.outcomes_getElem?.2 ho⟩

/-- What was started in a run that was not cancelled has finished. -/
theorem finished (hs : Closed p lots s) (hnever : s.cancelled = false)
    (hc : p.components[i]? = some c) {o : Outcome} (ho : s.report.outcomes[i]? = some o) {τ : Float}
    (hlot : lots i = .started τ) :
    ((p.role c).course τ).2 = .outcome o ∧ tick ((p.role c).course τ).1 ≤ tick s.now ∧
      s.ended.starts c = [τ] ∧ s.ended.finishes c = [((p.role c).course τ).1] := by
  have hfate := hs.fate hc ho
  rw [hlot] at hfate
  cases hfate with
  | course course past calls told =>
    obtain ⟨hstarts, hfinishes⟩ := Prod.ext_iff.1 told
    rw [ended_starts s i, ended_finishes s i, show (s.view i c).starts = [τ] from hstarts,
      show (s.view i c).finishes = [((p.role c).course τ).1] from hfinishes]
    exact ⟨course, past, rfl, rfl⟩
  | interrupted hcancelled =>
    rw [hnever] at hcancelled
    cases hcancelled

/-- What was not started is skipped. -/
theorem skipped_of_untouched (hs : Closed p lots s) (hc : p.components[i]? = some c) {o : Outcome}
    (ho : s.report.outcomes[i]? = some o) (hlot : lots i = .untouched) :
    o = skipped c (skipReason s.cancelled) := by
  have hfate := hs.fate hc ho
  rw [hlot] at hfate
  cases hfate
  rfl

theorem exists_component (hs : Closed p lots s) {o : Outcome} (ho : s.report.outcomes[i]? = some o) :
    ∃ c, p.components[i]? = some c :=
  hs.toScene.exists_component (hs.outcomes_getElem?.1 ho)

end Closed

theorem Fate.component {r : Role} {cancelled : Bool} {v : View} {lot : Lot} {o : Outcome}
    (orderly : r.script.Orderly) (h : Fate r cancelled v lot o) : o.component = r.component := by
  cases h with
  | untouched => rfl
  | course course =>
    obtain ⟨o', ho', hcomponent, -⟩ :=
      Role.courseFrom_outcome r orderly _ (attemptsLeft r.policy 1) 1 _
    cases course.symm.trans ho'
    exact hcomponent
  | interrupted => rfl

/-- The status of a component that was tested to the end. -/
theorem Role.course_status {r : Role} {o : Outcome} {τ : Float} (orderly : r.script.Orderly) (h : (r.course τ).2 = .outcome o) :
    o.status ∈ [.passed, .failed, .errored] := by
  obtain ⟨o', ho', -, hstatus⟩ := Role.courseFrom_outcome r orderly τ (attemptsLeft r.policy 1) 1 τ
  cases h.symm.trans ho'
  exact hstatus

theorem Closed.outcomes_components (sound : p.Sound) (hs : Closed p lots s) :
    s.report.outcomes.map (·.component) = p.components := by
  refine List.ext_getElem? fun i ↦ ?_
  rw [List.getElem?_map]
  cases hc : p.components[i]? with
  | none =>
    cases ho : s.report.outcomes[i]? with
    | none => rfl
    | some o =>
      obtain ⟨c, hc'⟩ := hs.exists_component ho
      cases hc.symm.trans hc'
  | some c =>
    obtain ⟨o, ho⟩ := hs.exists_outcome hc
    rw [ho, Option.map_some, (hs.fate hc ho).component sound.orderly]
    rfl

/-! ## Strangers -/

/-- The runner is called for components of the run alone. -/
theorem step_stranger (hs : Play p lots s) (hc : c ∉ p.components) :
    (step p.setup s).shared.count c = s.shared.count c := by
  obtain ⟨stand, hscene⟩ := hs.scene
  unfold step
  split
  · next t queue hqueue =>
    have hplace {i : Nat} (ht : t.place? = some i) :
        (handle p.setup t { s with queue := queue }).shared.count c = s.shared.count c := by
      refine (Undisturbed.handle ht fun place hplace hcomponent ↦ hc ?_).calls
      rw [← hcomponent]
      exact List.mem_of_getElem? (hscene.of_place hplace)
    obtain ⟨i, ht⟩ | rfl | ⟨ht, hne⟩ := t.kinds
    · exact hplace ht
    · exact congrArg (·.count c) (Coordinated.coordinate p.setup_isQuiet { s with queue := queue }).shared
    · exact congrArg (·.count c) (handle_tells p.setup ht hne { s with queue := queue }).shared
  · rfl

theorem steps_stranger (sound : p.Sound) (hcontrol : Control s) (hs : Play p lots s)
    (hc : c ∉ p.components) (n : Nat) :
    (steps p.setup n s).shared.count c = s.shared.count c := by
  refine (steps_induction (P := fun t ↦ Control t ∧ (∃ lots, Play p lots t) ∧
    t.shared.count c = s.shared.count c) (fun t hdone h ↦ ?_) ⟨hcontrol, ⟨lots, hs⟩, rfl⟩ n).2.2
  obtain ⟨hcontrol, ⟨lots, hplay⟩, hcount⟩ := h
  obtain ⟨lots', hplay', -⟩ := hplay.step sound hcontrol hdone
  exact ⟨hcontrol.step p.setup_isQuiet hdone, ⟨lots', hplay'⟩, (step_stranger hplay hc).trans hcount⟩

/-! ## Whole runs -/

/-- The scripted run that tests the components. -/
def Production.of (script : Script) (policy : Policy) (shared : Rehearsal.Shared)
    (components : List String) : Production where
  script := script
  policy := policy
  components := components
  earlier := shared.count

theorem Production.sound_of {script : Script} {policy : Policy} {registry : Registry}
    {components : List String} (shared : Rehearsal.Shared) (hlist : registry.list = .ok components)
    (orderly : script.Orderly) (hparallelism : 1 ≤ policy.parallelism) :
    (Production.of script policy shared components).Sound :=
  ⟨orderly, Registry.nodup_of_list hlist, hparallelism⟩

/-- A scripted run ends with a report. -/
theorem Play.closed (hs : Play p lots s) (hdone : s.isDone = true) :
    Closed p lots s ∧ s.ended.report = .ok s.report := by
  rw [Play] at hs
  rw [State.isDone] at hdone
  split at hdone
  · next abort hco =>
    rw [hco] at hs
    obtain ⟨rfl, hs⟩ := hs
    refine ⟨hs, ?_⟩
    rw [State.ended, hco]
  · cases hdone

theorem Undisturbable.begin {σ ι : Type} {setup : Setup σ ι} (quiet : setup.IsQuiet) (now : Float)
    (shared : σ) (components : List String) :
    Undisturbable (begin setup .never now shared components) := by
  have hfill := Coordinated.fill quiet (.opening setup .never now shared components)
  rw [begin_eq]
  refine ⟨hfill.cancelled, ?_, fun t ht ↦ ?_⟩
  · obtain ⟨new, hnew, hcancel⟩ := hfill.next
    rw [State.turns, hfill.queue, hnew]
    simp [State.opening, hcancel]
  · rw [hfill.timers] at ht
    cases ht

theorem steps_never {σ ι : Type} {setup : Setup σ ι} (quiet : setup.IsQuiet) (now : Float) (shared : σ)
    (components : List String) (n : Nat) :
    (steps setup n (begin setup .never now shared components)).cancelled = false :=
  ((Undisturbable.begin quiet now shared components).steps quiet n).cancelled

/-- A run that nothing will cancel ends without a cancellation. -/
theorem final_never {σ ι : Type} {setup : Setup σ ι} (quiet : setup.IsQuiet) (now : Float) (shared : σ)
    (components : List String) : (final setup .never now shared components).cancelled = false :=
  steps_never quiet now shared components _

section Execution

variable {registry : Registry} {components : List String} {script : Script} {policy : Policy}
  {cancellation : Cancellation} {now : Float} {shared : Rehearsal.Shared}

/-- Where a scripted run of the components of a usable registry ends. -/
theorem final_closed (shared : Rehearsal.Shared) (hlist : registry.list = .ok components)
    (hparallelism : 1 ≤ policy.parallelism) (orderly : script.Orderly) (hnow : IsInstant now)
    (hdelays : ∀ delay ∈ cancellation.delays, 0 ≤ delay) :
    ∃ lots, Closed (.of script policy shared components) lots
        (final (script.setup policy) cancellation now shared components) ∧
      (execute (script.setup policy) cancellation now shared components).report =
        .ok (final (script.setup policy) cancellation now shared components).report := by
  have sound := Production.sound_of shared hlist orderly hparallelism
  obtain ⟨lots, hfinal, -⟩ := steps_play sound (fun _ ↦ rfl) hnow hdelays
    (turnBound (script.setup policy) cancellation components)
  exact ⟨lots, hfinal.closed (final_isDone sound (fun _ ↦ rfl) hnow hdelays)⟩

theorem final_stranger (hlist : registry.list = .ok components)
    (hparallelism : 1 ≤ policy.parallelism) (orderly : script.Orderly) (hnow : IsInstant now)
    (hdelays : ∀ delay ∈ cancellation.delays, 0 ≤ delay) (hc : c ∉ components) :
    (final (script.setup policy) cancellation now shared components).shared.count c =
      shared.count c := by
  have sound := Production.sound_of shared hlist orderly hparallelism
  obtain ⟨lots, hplay⟩ := begin_play sound (fun _ ↦ rfl) hnow hdelays
  have hsteps := steps_stranger sound (.begin (Script.setup_isQuiet _ _) _ _ _ _) hplay hc
    (turnBound (script.setup policy) cancellation components)
  have hfill := Coordinated.fill (Script.setup_isQuiet script policy)
    (.opening (script.setup policy) cancellation now shared components)
  exact hsteps.trans (congrArg (fun shared : Rehearsal.Shared ↦ shared.count c) hfill.shared)

end Execution

end Run

end Testbed
