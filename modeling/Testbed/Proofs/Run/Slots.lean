import Testbed.Proofs.Run.Coordination
import Testbed.Proofs.Run.Replies

/-!
# What becomes of the slots

A step changes the slots of a run in few ways.  Those of a run that goes on are listed here, and
those that come with the end of a run, when all work is interrupted and what is left is skipped.  A
property of the slots that each of them keeps is kept by the run, whatever its runner is.
-/

namespace Testbed.Run

variable {σ ι : Type} {setup : Setup σ ι} {i : Nat} {c : String} {s s' : State σ ι}
  {P : String → Slot ι → Prop}

/-- What a turn of a run that goes on can make of the slot of a component. -/
inductive Setup.Change (setup : Setup σ ι) (c : String) : Slot ι → Slot ι → Prop
  | launches (now : Float) : setup.Change c .pending (.running { started := now })
  | goes {w w' : Worker ι} {reply : Reply ι Ending} (now : Float) (answers : setup.Answers c w reply)
    (leads : setup.Leads now c w reply w') : setup.Change c (.running w) (.running w')
  | rings {w : Worker ι} {invocation : ι} {awaits : List Nat} {signals : Signals} (alarm : Nat)
    (stage : w.stage = .suspended invocation awaits signals) (awaited : alarm ∈ awaits) :
    setup.Change c (.running w) (.running { w with
      stage := .suspended invocation awaits
        { signals with queued := true, rung := signals.rung ++ [alarm] } })
  | expires {w : Worker ι} {invocation : ι} {awaits : List Nat} {signals : Signals}
    (stage : w.stage = .suspended invocation awaits signals) (expired : w.expired = false) :
    setup.Change c (.running w) (Slot.interrupted (.running { w with expired := true }))
  | settles (slot : Slot ι) : setup.Change c slot slot.settle

/-- What the coordinator can make of the slot of a component while the run goes on. -/
inductive Slot.Steers : Slot ι → Slot ι → Prop
  | launches (now : Float) : Slot.Steers .pending (.running { started := now })
  | settles (slot : Slot ι) : Slot.Steers slot slot.settle

theorem Slot.Steers.change {slot slot' : Slot ι} (h : Slot.Steers slot slot') :
    setup.Change c slot slot' := by
  cases h with
  | launches now => exact .launches now
  | settles slot => exact .settles slot

/-- What the end of a run can make of the slot of a component. -/
inductive Slot.Closes (c : String) : Slot ι → Slot ι → Prop
  | interrupts (slot : Slot ι) : Slot.Closes c slot slot.interrupted
  | drains (slot : Slot ι) : Slot.Closes c slot (slot.drained c)
  | skips (reason : String) (slot : Slot ι) : Slot.Closes c slot (slot.skip c reason)

theorem Slot.interrupted_eq_settled {slot : Slot ι} {o : Outcome} :
    slot.interrupted = .settled o ↔ slot = .settled o := by
  rcases slot with _ | ⟨_, _, _, _, _ | _ | _⟩ | _ <;> simp [interrupted]

/-- Work that is drained is settled with its outcome, or skipped if it has none. -/
theorem Slot.drained_cases (c : String) (slot : Slot ι) : slot.drained c = slot ∨
    ∃ o, slot.drained c = .settled o ∧
      (slot.finish? = some (.outcome o) ∨ o = skipped c interruptedCancelled) := by
  cases slot with
  | pending | settled => exact .inl rfl
  | running w => rcases w with ⟨_, _, _, _, _ | _ | _ | _ | _⟩ <;> simp [drained, finish?]

/-- Every component has a slot of a kind. -/
def State.All (P : String → Slot ι → Prop) (s : State σ ι) : Prop :=
  ∀ p ∈ s.places, P p.component p.slot

/-! ## Turns about a place -/

/-- The slot of a place has changed as slots do in a run that goes on, if at all. -/
def Changed (setup : Setup σ ι) (i : Nat) (s s' : State σ ι) : Prop :=
  s'.slot? i = s.slot? i ∨ ∃ c slot slot', s.places[i]? = some ⟨c, slot⟩ ∧
    s'.slot? i = some slot' ∧ setup.Change c slot slot'

theorem work_changed (quiet : setup.IsQuiet) (i : Nat) (s : State σ ι) :
    Changed setup i s (work setup i s) := by
  obtain hidle | ⟨c, w, reply, hplace, answers, hreplied⟩ := work_cases quiet i s
  · rw [hidle]
    exact .inl rfl
  · obtain ⟨w', hslot, leads⟩ := hreplied.leads
    exact .inr ⟨c, .running w, .running w', hplace, hslot, .goes s.now answers leads⟩

theorem ring_changed (setup : Setup σ ι) (i n alarm : Nat) (s : State σ ι) :
    Changed setup i s (ring i n alarm s) := by
  unfold ring
  split
  · next w hworker =>
    split
    · next invocation awaits signals hstage =>
      split
      · next hrings =>
        have hslot := State.worker?_eq_some.1 hworker
        obtain ⟨c, hplace⟩ := State.slot?_eq_some.1 hslot
        have hset := setWorker_slot? hslot { w with
          stage := .suspended invocation awaits
            { signals with queued := true, rung := signals.rung ++ [alarm] } }
        refine .inr ⟨c, .running w, _, hplace, ?_, .rings alarm hstage hrings.2⟩
        dsimp only
        split <;> exact hset
      · exact .inl rfl
    · exact .inl rfl
  · exact .inl rfl

theorem interrupt_slot? (i : Nat) (s : State σ ι) :
    (interrupt i s).slot? i = (s.slot? i).map Slot.interrupted := by
  rw [interrupt_eq, State.slot?, List.getElem?_modify_eq, State.slot?]
  cases s.places[i]? <;> rfl

theorem expire_changed (setup : Setup σ ι) (i n : Nat) (s : State σ ι) :
    Changed setup i s (expire i n s) := by
  unfold expire
  split
  · next w hworker =>
    split
    · next invocation awaits signals hstage =>
      split
      · next hexpires =>
        have hslot := State.worker?_eq_some.1 hworker
        obtain ⟨c, hplace⟩ := State.slot?_eq_some.1 hslot
        refine .inr ⟨c, .running w, _, hplace, ?_, .expires hstage (by simpa using hexpires.2)⟩
        rw [interrupt_slot?, setWorker_slot? hslot]
        rfl
      · exact .inl rfl
    · exact .inl rfl
  · exact .inl rfl

theorem handle_changed (quiet : setup.IsQuiet) {t : Turn} (ht : t.place? = some i) (s : State σ ι) :
    Changed setup i s (handle setup t s) := by
  cases t with
  | work j =>
    obtain rfl : j = i := by simpa using ht
    exact work_changed quiet j s
  | expire j n =>
    obtain rfl : j = i := by simpa using ht
    exact expire_changed setup j n s
  | ring j n alarm =>
    obtain rfl : j = i := by simpa using ht
    exact ring_changed setup j n alarm s
  | cancel | watch | notice | coordinate => cases ht

/-! ## The turn of the coordinator -/

/-- What the coordinator does in its turn. -/
inductive Conducts (setup : Setup σ ι) (s : State σ ι) : State σ ι → Prop
  | waits {woken : Bool} (waiting : s.coordinator = .waiting woken) (abort : s.abort? setup = none)
    (cancelled : s.cancelled = false)
    (busy : ((s.collected setup).filled setup).runningCount ≠ 0) :
    Conducts setup s { (s.collected setup).filled setup with
      epoch := ((s.collected setup).filled setup).epoch + 1
      coordinator := .waiting false }
  | completes {woken : Bool} (waiting : s.coordinator = .waiting woken)
    (abort : s.abort? setup = none) (cancelled : s.cancelled = false)
    (idle : ((s.collected setup).filled setup).runningCount = 0) :
    Conducts setup s (complete setup ((s.collected setup).filled setup))
  | aborts {woken : Bool} {abort : Abort} (waiting : s.coordinator = .waiting woken)
    (aborted : s.abort? setup = some abort) :
    Conducts setup s (drain (some abort) (s.collected setup))
  | drains {woken : Bool} (waiting : s.coordinator = .waiting woken) (abort : s.abort? setup = none) :
    Conducts setup s (drain none ((s.collected setup).note (s.collected setup).cancelNote))
  | ends {woken : Bool} (waiting : s.coordinator = .waiting woken) (abort : s.abort? setup = none) :
    Conducts setup s (concludeDrain setup none
      ((s.collected setup).note (s.collected setup).cancelNote))
  | drained {left : Nat} {cause : Option Abort} (draining : s.coordinator = .draining left cause) :
    Conducts setup s (concludeDrain setup cause s)
  | rests {abort : Option Abort} (done : s.coordinator = .done abort) : Conducts setup s s

theorem coordinate_conducts (setup : Setup σ ι) (s : State σ ι) :
    Conducts setup s (coordinate setup s) := by
  unfold coordinate
  split
  · next waiting =>
    rw [collect_eq]
    split
    · next aborted => exact .aborts waiting aborted
    · next abort =>
      split
      · split
        · exact .ends waiting abort
        · exact .drains waiting abort
      · next hcancelled =>
        have cancelled : s.cancelled = false := by simpa using hcancelled
        rw [fill_eq]
        split
        · next idle => exact .completes waiting abort cancelled idle
        · next busy => exact .waits waiting abort cancelled busy
  · next draining => exact .drained draining
  · next done => exact .rests done

theorem complete_coordinator (quiet : setup.IsQuiet) (s : State σ ι) :
    (complete setup s).coordinator = .done none := by
  obtain ⟨new, heq, -⟩ := complete_eq quiet s
  rw [heq]

theorem concludeDrain_coordinator (quiet : setup.IsQuiet) (cause : Option Abort) (s : State σ ι) :
    (concludeDrain setup cause s).coordinator = .done cause := by
  cases cause with
  | none =>
    obtain ⟨new, heq, -⟩ := concludeDrain_eq_none quiet s
    rw [heq]
  | some abort =>
    obtain ⟨new, heq, -⟩ := concludeDrain_eq_some quiet abort s
    rw [heq]

theorem drain_coordinator (cause : Option Abort) (s : State σ ι) :
    (drain cause s).coordinator = .draining (s.placesWith Slot.isRunning).length cause := by
  rw [drain_eq]

/-! ## What the coordinator makes of the slots -/

namespace State.All

theorem of_places (hs : s.All P) (h : s'.places = s.places) : s'.All P := by
  rwa [All, h]

theorem map (hs : s.All P) {f : String → Slot ι → Slot ι} (hf : ∀ c slot, P c slot → P c (f c slot))
    (h : s'.places = s.places.map fun p ↦ { p with slot := f p.component p.slot }) : s'.All P := by
  rw [All, h]
  intro p hp
  obtain ⟨q, hq, rfl⟩ := List.mem_map.1 hp
  exact hf _ _ (hs q hq)

theorem turned (hs : s.All P) (hchange : ∀ c slot slot', setup.Change c slot slot' → P c slot → P c slot')
    (hturned : Turned i s s') (h : Changed setup i s s') : s'.All P := by
  intro p hp
  obtain ⟨j, hj⟩ := List.mem_iff_getElem?.1 hp
  obtain ⟨f, hf⟩ := hturned.places
  by_cases hij : i = j
  · subst hij
    rw [hf, List.getElem?_modify_eq] at hj
    obtain ⟨q, hq, rfl⟩ := Option.map_eq_some_iff.1 hj
    have hslot : s'.slot? i = some (f q.slot) := by
      rw [slot?, hf, List.getElem?_modify_eq, hq]
      rfl
    have hPq := hs q (List.mem_of_getElem? hq)
    obtain h | ⟨c, slot, slot', hplace, hslot', hchanged⟩ := h
    · have heq : f q.slot = q.slot := by
        rw [hslot, slot?, hq] at h
        exact Option.some_inj.1 h
      rwa [heq]
    · obtain rfl : q = ⟨c, slot⟩ := Option.some_inj.1 (hq.symm.trans hplace)
      obtain rfl : f slot = slot' := Option.some_inj.1 (hslot.symm.trans hslot')
      exact hchange c slot _ hchanged hPq
  · rw [hf, List.getElem?_modify_ne _ _ hij] at hj
    exact hs p (List.mem_of_getElem? hj)

section Steers

variable (hsteers : ∀ c slot slot', Slot.Steers slot slot' → P c slot → P c slot')
include hsteers

theorem collected (hs : s.All P) : (s.collected setup).All P := by
  obtain ⟨k, -, hk, -⟩ := settle_places setup.policy.failFast s.halted s.places
  obtain ⟨new, hnew, -⟩ := s.collected_eq setup
  rw [All, hnew]
  intro p hp
  obtain hp | hp := List.mem_append.1 (hk ▸ hp)
  · obtain ⟨q, hq, rfl⟩ := List.mem_map.1 hp
    exact hsteers _ _ _ (.settles q.slot) (hs q (List.mem_of_mem_take hq))
  · exact hs p (List.mem_of_mem_drop hp)

theorem filled (hs : s.All P) : (s.filled setup).All P := by
  rw [State.filled]
  split
  · exact hs
  intro p hp
  obtain ⟨j, hj⟩ := List.mem_iff_getElem?.1 hp
  rw [launch_places] at hj
  split at hj
  · next hmem =>
    obtain ⟨q, hq, rfl⟩ := Option.map_eq_some_iff.1 hj
    obtain ⟨slot, hslot, hpending⟩ := mem_placesWith.1 (List.mem_of_mem_take hmem)
    have hPq := hs q (List.mem_of_getElem? hq)
    obtain rfl : q.slot = slot := by simpa [slot?, hq] using hslot
    obtain ⟨c, slot⟩ := q
    cases slot with
    | pending => exact hsteers c _ _ (.launches s.now) hPq
    | running => cases hpending
    | settled => cases hpending
  · exact hs p (List.mem_of_getElem? hj)

end Steers

theorem complete (quiet : setup.IsQuiet)
    (hskips : ∀ c reason slot, P c slot → P c (slot.skip c reason)) (hs : s.All P) :
    (complete setup s).All P := by
  obtain ⟨new, heq, -⟩ := complete_eq quiet s
  rw [heq]
  refine hs.map (fun c slot ↦ hskips c (skipReason s.cancelled) slot) ?_
  exact List.map_congr_left fun p _ ↦ p.skip_eq _

/-- Filling the free places keeps what starting, settling and skipping a component keep. -/
theorem fill (quiet : setup.IsQuiet)
    (hsteers : ∀ c slot slot', Slot.Steers slot slot' → P c slot → P c slot')
    (hskips : ∀ c reason slot, P c slot → P c (slot.skip c reason)) (hs : s.All P) :
    (fill setup s).All P := by
  rw [fill_eq]
  split
  · exact (hs.filled hsteers).complete quiet hskips
  · exact hs.filled hsteers

section Closes

variable (hcloses : ∀ c slot slot', Slot.Closes c slot slot' → P c slot → P c slot')
include hcloses

theorem drain (cause : Option Abort) (hs : s.All P) : (drain cause s).All P := by
  rw [drain_eq]
  exact hs.map (fun c slot ↦ hcloses c slot _ (.interrupts slot)) rfl

theorem concludeDrain (quiet : setup.IsQuiet) (cause : Option Abort) (hs : s.All P) :
    (concludeDrain setup cause s).All P := by
  cases cause with
  | none =>
    obtain ⟨new, heq, -⟩ := concludeDrain_eq_none quiet s
    rw [heq]
    refine hs.map (f := fun c slot ↦ (slot.drained c).skip c (skipReason s.cancelled))
      (fun c slot h ↦ ?_) ?_
    · exact hcloses c _ _ (.skips _ _) (hcloses c _ _ (.drains slot) h)
    · exact List.map_congr_left fun p _ ↦ by rw [Place.skip_eq, Place.drained_eq]
  | some abort =>
    obtain ⟨new, heq, -⟩ := concludeDrain_eq_some quiet abort s
    rw [heq]
    exact hs

end Closes

theorem conducts (quiet : setup.IsQuiet) (h : Conducts setup s s')
    (hsteers : ∀ c slot slot', Slot.Steers slot slot' → P c slot → P c slot')
    (hcloses : (∀ woken, s'.coordinator ≠ .waiting woken) →
      ∀ c slot slot', Slot.Closes c slot slot' → P c slot → P c slot') (hs : s.All P) : s'.All P := by
  have hcollected : (s.collected setup).All P := hs.collected hsteers
  have hnoted : ((s.collected setup).note (s.collected setup).cancelNote).All P := hcollected
  have hcoordinator {coordinator : Coordinator} (hco : s'.coordinator = coordinator)
      (hne : ∀ woken, coordinator ≠ .waiting woken) := hcloses fun woken ↦ hco ▸ hne woken
  cases h with
  | waits => exact hcollected.filled hsteers
  | completes =>
    have hends := hcoordinator (complete_coordinator quiet _) nofun
    exact (hcollected.filled hsteers).complete quiet fun c reason slot ↦
      hends c slot _ (.skips reason slot)
  | aborts => exact hcollected.drain (hcoordinator (drain_coordinator _ _) nofun) _
  | drains => exact hnoted.drain (hcoordinator (drain_coordinator _ _) nofun) _
  | ends =>
    exact hnoted.concludeDrain (hcoordinator (concludeDrain_coordinator quiet _ _) nofun) quiet _
  | drained =>
    exact hs.concludeDrain (hcoordinator (concludeDrain_coordinator quiet _ _) nofun) quiet _
  | rests => exact hs

end State.All

/-! ## Runs -/

/-- What every change keeps is kept by a step, unless the step ends the wait of the coordinator; then
it has to survive the end of the run as well. -/
theorem step_all (quiet : setup.IsQuiet)
    (hchange : ∀ c slot slot', setup.Change c slot slot' → P c slot → P c slot')
    (hcloses : (∀ woken, (step setup s).coordinator ≠ .waiting woken) →
      ∀ c slot slot', Slot.Closes c slot slot' → P c slot → P c slot') (hs : s.All P) :
    (step setup s).All P := by
  unfold step at hcloses ⊢
  split
  · next t queue hqueue =>
    rw [hqueue] at hcloses
    have hrest : State.All P { s with queue := queue } := hs
    obtain ⟨i, ht⟩ | rfl | ⟨ht, hne⟩ := t.kinds
    · exact hrest.turned hchange (handle_turned quiet ht _) (handle_changed quiet ht _)
    · exact hrest.conducts quiet (coordinate_conducts setup _)
        (fun c slot slot' h ↦ hchange c slot slot' h.change) hcloses
    · exact hrest.of_places (handle_tells setup ht hne _).places
  · exact hs

/-- A kind of slots that the changes of a run do not leave. -/
structure Setup.Keeps (setup : Setup σ ι) (P : String → Slot ι → Prop) : Prop where
  change : ∀ c slot slot', setup.Change c slot slot' → P c slot → P c slot'
  closes : ∀ c slot slot', Slot.Closes c slot slot' → P c slot → P c slot'

theorem Setup.Keeps.steers (keeps : setup.Keeps P) (c : String) (slot slot' : Slot ι)
    (h : Slot.Steers slot slot') : P c slot → P c slot' :=
  keeps.change c slot slot' h.change

theorem opening_all (cancellation : Cancellation) (now : Float) (shared : σ) (components : List String)
    (hpending : ∀ c, P c .pending) :
    (State.opening setup cancellation now shared components).All P := by
  intro p hp
  obtain ⟨c, -, rfl⟩ := List.mem_map.1 hp
  exact hpending c

theorem Setup.Keeps.begin (keeps : setup.Keeps P) (quiet : setup.IsQuiet)
    (hpending : ∀ c, P c .pending) (cancellation : Cancellation) (now : Float) (shared : σ)
    (components : List String) : (begin setup cancellation now shared components).All P := by
  rw [begin_eq]
  apply State.All.fill quiet keeps.steers
  · intro c reason slot
    exact keeps.closes c slot _ (.skips reason slot)
  · exact opening_all cancellation now shared components hpending

theorem Setup.Keeps.steps (keeps : setup.Keeps P) (quiet : setup.IsQuiet) (hs : s.All P) (n : Nat) :
    (steps setup n s).All P :=
  steps_induction (fun _ _ hs ↦ step_all quiet keeps.change (fun _ ↦ keeps.closes) hs) hs n

end Testbed.Run
