import Testbed.Proofs.Run.Completeness
import Testbed.Proofs.Run.Halt
import Testbed.Proofs.Run.Record

/-!
# The budget of a run

A component is tested at most once more than the policy has retries, so that the runner is called no
oftener than that for each component.  A run keeps to this budget at every turn, and it is over after
a number of turns that is known when it begins.
-/

namespace Testbed

open Run Clock

/-- The attempts that a component may have. -/
def Policy.budget (policy : Policy) : Nat :=
  policy.retries.toNat + 1

namespace Run

/-! ## Attempts -/

section Slots

variable {σ ι : Type} {setup : Setup σ ι} {w w' : Worker ι}

/-- The attempt underway is one that the policy provides for. -/
def Slot.IsAffordable (policy : Policy) : Slot ι → Prop
  | .running w => w.attempt ≤ policy.budget
  | _ => True

/-- Another attempt follows only if one is left. -/
theorem Setup.Leads.attempt_le {now : Float} {c : String} {reply : Reply ι Ending}
    (h : setup.Leads now c w reply w') (hw : w.attempt ≤ setup.policy.budget) :
    w'.attempt ≤ setup.policy.budget := by
  induction h with
  | yields | waits | interrupted | concludes => exact hw
  | again shared next assess errored left leads ih =>
    refine ih ?_
    simp only [attemptsLeft, Worker.again, Policy.budget] at left ⊢
    omega

theorem Slot.IsAffordable.interrupted {policy : Policy} {slot : Slot ι} (h : slot.IsAffordable policy) :
    slot.interrupted.IsAffordable policy := by
  rcases slot with _ | ⟨_, _, _, _, _ | _ | _⟩ | _ <;> exact h

theorem Setup.keeps_affordable (setup : Setup σ ι) :
    setup.Keeps fun _ slot ↦ slot.IsAffordable setup.policy where
  change c slot slot' h hs := by
    cases h with
    | launches => exact Nat.le_add_left 1 _
    | goes now answers leads => exact leads.attempt_le hs
    | rings => exact hs
    | expires => exact Slot.IsAffordable.interrupted (show (Slot.running _).IsAffordable _ from hs)
    | settles =>
      unfold Slot.settle
      split
      · trivial
      · exact hs
  closes c slot slot' h hs := by
    cases h with
    | interrupts => exact hs.interrupted
    | drains =>
      obtain hsame | ⟨o, hdrained, -⟩ := slot.drained_cases c
      · rwa [hsame]
      · rw [hdrained]
        trivial
    | skips => cases slot <;> exact hs

end Slots

/-! ## Invocations -/

variable {p : Production} {lots : Nat → Lot} {s s' : ScriptState} {before : Rehearsal.Shared}

/-- The invocations since the state `before` of the runner are within the budget of the run. -/
structure Spent (p : Production) (before after : Rehearsal.Shared) : Prop where
  calls : ∃ new, after.calls = before.calls ++ new ∧ ∀ call ∈ new, call.component ∈ p.components
  count : ∀ c, after.count c ≤ before.count c + p.policy.budget

theorem Spent.refl (p : Production) (before : Rehearsal.Shared) : Spent p before before :=
  ⟨⟨[], by simp⟩, fun _ ↦ Nat.le_add_right _ _⟩

/-- A list has at most as many members as its values have occurrences. -/
theorem length_le_of_count {calls : List Call} {components : List String} {n : Nat}
    (hmem : ∀ call ∈ calls, call.component ∈ components)
    (hcount : ∀ c, calls.countP (·.component = c) ≤ n) : calls.length ≤ components.length * n := by
  have hvalues (c : String) : (calls.map (·.component)).count c ≤ n := by
    rw [List.count_eq_countP, List.countP_map]
    refine (List.countP_congr fun call _ ↦ ?_).trans_le (hcount c)
    simp
  calc calls.length
      = (calls.map (·.component)).length := (List.length_map _).symm
    _ = ∑ c ∈ (calls.map (·.component)).toFinset, (calls.map (·.component)).count c :=
      (List.sum_toFinset_count_eq_length _).symm
    _ ≤ (calls.map (·.component)).toFinset.card * n :=
      Finset.sum_le_card_nsmul _ _ _ fun c _ ↦ hvalues c
    _ ≤ components.toFinset.card * n := by
      refine Nat.mul_le_mul_right n (Finset.card_le_card fun c hc ↦ ?_)
      obtain ⟨call, hcall, rfl⟩ := List.mem_map.1 (List.mem_toFinset.1 hc)
      exact List.mem_toFinset.2 (hmem call hcall)
    _ ≤ components.length * n := Nat.mul_le_mul_right n components.toFinset_card_le

/-- The new invocations of a run within its budget. -/
theorem Spent.length_le {after : Rehearsal.Shared} (h : Spent p before after) :
    after.calls.length ≤ before.calls.length + p.components.length * p.policy.budget := by
  obtain ⟨⟨new, hnew, hmem⟩, hcount⟩ := h
  have hle := length_le_of_count hmem fun c ↦ by
    have := hcount c
    rw [Rehearsal.Shared.count, Rehearsal.Shared.count, hnew, List.countP_append] at this
    exact Nat.add_le_add_iff_left.1 this
  rw [hnew, List.length_append]
  exact Nat.add_le_add_left hle _

/-- An invocation that is underway is one of the attempts that are on record. -/
theorem Recorded.count_le (hrecorded : Recorded p s) (hslots : s.All fun _ ↦ Slot.IsAffordable p.policy)
    {i : Nat} {c : String} (hc : p.components[i]? = some c) (hinvoked : s.isInvoked i = true) :
    s.shared.count c ≤ p.earlier c + p.policy.budget := by
  have hcalls : (s.view i c).calls = s.shared.count c := rfl
  rw [State.isInvoked] at hinvoked
  obtain ⟨slot, hslot, hinvoked⟩ := (Option.any_eq_true _ _).1 hinvoked
  have hview : (s.view i c).slot = some slot := hslot
  rw [← hcalls]
  cases hrecorded i c hc with
  | waiting w n awaits signals slot stage pos calls told =>
    have hplace : s.slot? i = some (.running w) := slot
    obtain ⟨c', hplace⟩ := State.slot?_eq_some.1 hplace
    have hw : w.attempt ≤ p.policy.budget := hslots _ (List.mem_of_getElem? hplace)
    rw [calls]
    exact Nat.add_le_add_left hw _
  | pending slot =>
    cases hview.symm.trans slot
    cases hinvoked
  | fresh w slot stage =>
    cases hview.symm.trans slot
    obtain ⟨_, _, _, hstage⟩ := Slot.isInvoked_running.1 hinvoked
    cases stage.symm.trans hstage
  | interrupted w attempts slot =>
    cases hview.symm.trans slot
    cases hinvoked
  | finished w o slot =>
    cases hview.symm.trans slot
    cases hinvoked
  | settled o slot =>
    cases hview.symm.trans slot
    cases hinvoked
  | skipped reason attempts slot =>
    cases hview.symm.trans slot
    cases hinvoked

/-- What a run keeps to. -/
structure Thrifty (p : Production) (before : Rehearsal.Shared) (s : ScriptState) : Prop where
  recorded : Recorded p s
  slots : s.All fun _ ↦ Slot.IsAffordable p.policy
  spent : Spent p before s.shared

/-- A turn about a place calls the runner within the budget, as the record has it afterwards. -/
theorem Thrifty.turned (hs : Thrifty p before s) (hearlier : ∀ c, p.earlier c = before.count c) {i : Nat}
    {c : String} (hc : s.slot? i ≠ none → p.components[i]? = some c)
    (hinvoked : Invoked p.policy i c s s') (hrecorded : Recorded p s')
    (hslots : s'.All fun _ ↦ Slot.IsAffordable p.policy) : Thrifty p before s' := by
  refine ⟨hrecorded, hslots, ?_⟩
  have hentered (hactive : s.isActive i = true) (hnow : s'.isInvoked i = true)
      (hcalls : s'.shared.calls = s.shared.calls ++ [⟨c, p.policy.captureOutput, s.now⟩]) :
      Spent p before s'.shared := by
    obtain ⟨slot, hslot, -⟩ := (Option.any_eq_true _ _).1 hactive
    have hcomponent := hc (by simp [hslot])
    obtain ⟨⟨new, hnew, hmem⟩, hcount⟩ := hs.spent
    refine ⟨⟨_, by rw [hcalls, hnew, List.append_assoc], fun call hcall ↦ ?_⟩, fun d ↦ ?_⟩
    · obtain hcall | hcall := List.mem_append.1 hcall
      · exact hmem call hcall
      · rw [List.mem_singleton.1 hcall]
        exact List.mem_of_getElem? hcomponent
    · by_cases hd : d = c
      · rw [hd, ← hearlier c]
        exact hrecorded.count_le hslots hcomponent hnow
      · refine le_of_eq_of_le ?_ (hcount d)
        rw [Rehearsal.Shared.count, Rehearsal.Shared.count, hcalls, List.countP_append]
        simp [Ne.symm hd]
  have hsame (h : s'.shared.calls = s.shared.calls) : Spent p before s'.shared := by
    obtain ⟨hnew, hcount⟩ := hs.spent
    refine ⟨h ▸ hnew, fun d ↦ ?_⟩
    rw [Rehearsal.Shared.count, h]
    exact hcount d
  cases hinvoked with
  | rests shared => exact hsame (by rw [shared])
  | leaves before shared => exact hsame (by rw [shared]; rfl)
  | enters fresh shared invoked =>
    exact hentered (by rw [State.isActive_eq, fresh, Bool.true_or]) invoked (by rw [shared]; rfl)
  | returns before shared invoked =>
    exact hentered (by rw [State.isActive_eq, before, Bool.or_true]) invoked (by rw [shared]; rfl)

theorem Thrifty.step (sound : p.Sound) (hearlier : ∀ c, p.earlier c = before.count c)
    (hcontrol : Control s) (hplay : Play p lots s) (hdone : s.isDone = false)
    (hs : Thrifty p before s) : Thrifty p before (step p.setup s) := by
  have keeps := p.setup.keeps_affordable
  have hrecorded := hs.recorded.step sound hcontrol hplay hdone
  have hslots := step_all p.setup_isQuiet keeps.change (fun _ ↦ keeps.closes) hs.slots
  have hsame (h : (Run.step p.setup s).shared = s.shared) : Thrifty p before (Run.step p.setup s) :=
    ⟨hrecorded, hslots, h ▸ hs.spent⟩
  obtain ⟨stand, hscene⟩ := hplay.scene
  cases hplay.stepped sound hcontrol hdone with
  | advances queue eq => exact hsame (by rw [eq]; rfl)
  | tells t rest queue place ne eq =>
    refine hsame ?_
    rw [eq]
    exact (told_of_place_none p.setup place ne { s with queue := rest }).shared
  | coordinates rest queue coordinates =>
    exact hsame coordinates.coordinated.shared
  | turns t i rest queue place eq =>
    have hbefore := hplay
    rw [State.eq_before queue] at hbefore
    obtain ⟨c, hc, hinvoked⟩ := hbefore.handle_invoked place
    rw [← eq] at hinvoked
    refine Thrifty.turned (s := { s with queue := rest })
      ⟨hs.recorded.change fun _ _ _ h ↦ h.congr rfl rfl rfl, hs.slots, hs.spent⟩ hearlier (fun hslot ↦ ?_)
      hinvoked hrecorded hslots
    obtain ⟨slot, hslot⟩ := Option.ne_none_iff_exists'.1 hslot
    obtain ⟨d, hplace⟩ := State.slot?_eq_some.1 hslot
    have hplace' : s.places[i]? = some ⟨d, slot⟩ := hplace
    rw [← hscene.components, List.getElem?_map, hplace', Option.map_some, ← hc _ hplace]

theorem Thrifty.steps (sound : p.Sound) (hearlier : ∀ c, p.earlier c = before.count c)
    (hcontrol : Control s) (hplay : Play p lots s) (hs : Thrifty p before s) (n : Nat) :
    Thrifty p before (steps p.setup n s) :=
  Play.steps_keep sound (fun hcontrol hplay hdone hs ↦ hs.step sound hearlier hcontrol hplay hdone)
    hcontrol hplay hs n

theorem Thrifty.begin (sound : p.Sound) (hearlier : ∀ c, p.earlier c = before.count c)
    (cancellation : Cancellation) (now : Float) :
    Thrifty p before (begin p.setup cancellation now before p.components) where
  recorded := .begin sound hearlier cancellation now
  slots := by
    apply p.setup.keeps_affordable.begin p.setup_isQuiet
    intro c
    trivial
  spent := by
    have hfill := Coordinated.fill p.setup_isQuiet (.opening p.setup cancellation now before p.components)
    rw [begin_eq, hfill.shared]
    exact .refl p before

section Execution

variable {registry : Registry} {components : List String} {script : Script} {policy : Policy}
  {cancellation : Cancellation} {now : Float}

/-- Where a run has ended, no work is underway any more. -/
theorem Closed.settled (hs : Closed p lots s) : ∀ place ∈ s.places, ∃ o, place.slot = .settled o := by
  intro place hplace
  obtain ⟨i, hi⟩ := List.mem_iff_getElem?.1 hplace
  obtain ⟨o, ho, -⟩ := hs.settles (hs.toScene.of_place hi)
  rw [State.Settles, State.slot?, hi] at ho
  exact ⟨o, Option.some_inj.1 ho⟩

/-- A run is over after a number of turns that is known when it begins, with no work underway, and it
has called the runner no oftener than its budget allows. -/
theorem execute_within_budget (shared : Rehearsal.Shared) (hlist : registry.list = .ok components)
    (hparallelism : 1 ≤ policy.parallelism) (orderly : script.Orderly) (hnow : IsInstant now)
    (hdelays : ∀ delay ∈ cancellation.delays, 0 ≤ delay) :
    let last := final (script.setup policy) cancellation now shared components
    let ended := execute (script.setup policy) cancellation now shared components
    last.isDone = true ∧ (∀ place ∈ last.places, ∃ o, place.slot = .settled o) ∧
      ended.shared.calls.length ≤
        shared.calls.length + components.length * (policy.retries.toNat + 1) ∧
      ∀ c, ended.shared.count c ≤ shared.count c + (policy.retries.toNat + 1) := by
  have sound := Production.sound_of shared hlist orderly hparallelism
  obtain ⟨lots, hplay⟩ := begin_play sound (fun _ ↦ rfl) hnow hdelays
  obtain ⟨_, hclosed, -⟩ := final_closed shared hlist hparallelism orderly hnow hdelays
  have hthrifty : Thrifty (.of script policy shared components) shared
      (final (script.setup policy) cancellation now shared components) :=
    (Thrifty.begin sound (fun _ ↦ rfl) cancellation now).steps sound (fun _ ↦ rfl)
      (.begin (Script.setup_isQuiet _ _) _ _ _ _) hplay _
  have hdone := final_isDone sound (fun _ ↦ rfl) hnow hdelays
  exact ⟨hdone, hclosed.settled, hthrifty.spent.length_le, hthrifty.spent.count⟩

theorem execute_within_budget_failing :
    (⟨["alpha", "beta"]⟩ : Registry).list = .ok ["alpha", "beta"] ∧
      (execute (Script.failing.setup { retries := 2 }) (.after [1.5]) 0.0 {}
        ["alpha", "beta"]).shared.calls.length ≤ 6 :=
  have hlist : (⟨["alpha", "beta"]⟩ : Registry).list = .ok ["alpha", "beta"] := by decide +kernel
  have hparallelism : 1 ≤ ({ retries := 2 } : Policy).parallelism := by decide
  have ⟨_, _, hcalls, _⟩ := execute_within_budget {} hlist hparallelism Script.failing_orderly
    (by decide +kernel) (by decide +kernel)
  ⟨hlist, hcalls⟩

end Execution

end Run

end Testbed
