import Testbed.Proofs.Run.Control
import Testbed.Proofs.Run.Rounds

/-!
# Standings

What can be said of a component at any time in a scripted run.  Its lot is whether it was started,
and when; from then on the lot stays as it is.  Where the component stands follows from its lot and
from whether the run is going on, drains, or is over.
-/

namespace Testbed.Run

open Clock

/-- Whether a component was started, and when. -/
inductive Lot where
  | untouched
  | started (instant : Float)

namespace Coordinator

/-- The run goes on. -/
def isWaiting : Coordinator → Bool
  | .waiting _ => true
  | _ => false

def isDraining : Coordinator → Bool
  | .draining _ _ => true
  | _ => false

end Coordinator

/-- Where a component stands in a run that goes on. -/
def Standing.Running (r : Role) (i : Nat) (v : View) : Lot → Prop
  | .untouched => Untouched r v ∧ v.slot = some .pending
  | .started τ => OnCourse r i τ v

/-- Where a component stands while interrupted work is waited for. -/
def Standing.Draining (r : Role) (i : Nat) (v : View) : Lot → Prop
  | .untouched => Untouched r v ∧ v.slot = some .pending
  | .started τ => OnCourse r i τ v ∧ (∀ slot ∈ v.slot, slot.isActive = false) ∨ Leaving r i v

/-- The outcome of a component at the end of a run. -/
inductive Fate (r : Role) (cancelled : Bool) (v : View) : Lot → Outcome → Prop
  | untouched (calls : v.calls = r.earlier) (told : v.told = ([], [])) :
      Fate r cancelled v .untouched (skipped r.component (skipReason cancelled))
  | course {τ : Float} {o : Outcome} (course : (r.course τ).2 = .outcome o)
      (past : tick (r.course τ).1 ≤ tick v.now) (calls : r.earlier < v.calls)
      (told : v.told = ([τ], [(r.course τ).1]))
      (traced : v.Traced r τ (r.course τ).2.attempts) :
      Fate r cancelled v (.started τ) o
  | interrupted {τ : Float} (hcancelled : cancelled = true) (calls : r.earlier < v.calls)
      (finishes : v.finishes = []) :
      Fate r cancelled v (.started τ) (skipped r.component interruptedCancelled)

def Standing.Over (r : Role) (cancelled : Bool) (v : View) (lot : Lot) : Prop :=
  ∃ o, v.slot = some (.settled o) ∧ Fate r cancelled v lot o

/-- A view with another slot, after further turns were queued and skips were told of. -/
def View.changed (v : View) (slot : Option (Slot Rehearsal.Invocation)) (new : List Turn)
    (skips : List (Float × Event)) : View :=
  { v with slot := slot, next := v.next ++ new, events := skips ++ v.events }

namespace Standing

variable {r : Role} {i : Nat} {lot : Lot}

/-! ## Turns about places and the clock -/

theorem Running.handle {s : ScriptState} {t : Turn} {queue : List Turn} (orderly : r.script.Orderly)
    (hnow : IsInstant s.now) (ht : t.place? = some i)
    (hcomponent : s.places[i]?.map (·.component) = some r.component)
    (hqueue : (s.view i r.component).queue = queue)
    (h : Running r i { s.view i r.component with queue := t :: queue } lot) :
    Running r i ((Run.handle (r.script.setup r.policy) t s).view i r.component) lot := by
  cases lot with
  | untouched => cases h.1.idle.1
  | started τ => exact OnCourse.handle orderly hnow ht hcomponent hqueue h

theorem Draining.handle {s : ScriptState} {t : Turn} {queue : List Turn} (ht : t.place? = some i)
    (hcomponent : s.places[i]?.map (·.component) = some r.component)
    (hqueue : (s.view i r.component).queue = queue)
    (h : Draining r i { s.view i r.component with queue := t :: queue } lot) :
    Draining r i ((Run.handle (r.script.setup r.policy) t s).view i r.component) lot := by
  cases lot with
  | untouched => cases h.1.idle.1
  | started τ =>
    obtain ⟨hcourse, hslot⟩ | h := h
    · cases hcourse with
      | fresh slot =>
        have := hslot _ slot
        cases this
      | underway attempt start w slot pos instant course pace =>
        obtain ⟨awaits, signals, hstage, -⟩ := pace.stage
        have hactive : (Slot.running w).isActive = true :=
          Slot.isActive_iff.2 ⟨w, rfl, by simp [hstage]⟩
        rw [hslot _ slot] at hactive
        cases hactive
      | finished w slot idle => cases idle.1
      | settled o slot outcome idle => cases idle.1
    · exact .inr (h.handle ht hcomponent hqueue)

theorem Running.advance {v : View} {now : Float} (orderly : r.script.Orderly) (hqueue : v.queue = [])
    (ht : Ticks v.timers v.next v.now now) (h : Running r i v lot) :
    Running r i (v.advanced now) lot := by
  cases lot with
  | untouched =>
    obtain ⟨⟨⟨-, hnext, htimers⟩, calls, events⟩, hslot⟩ := h
    refine ⟨⟨⟨?_, rfl, ?_⟩, calls, events⟩, hslot⟩
    · simp [View.advanced, hnext, htimers]
    · simp [View.advanced, htimers]
  | started τ => exact OnCourse.advance orderly hqueue ht h

theorem Draining.advance {v : View} {now : Float} (orderly : r.script.Orderly) (hqueue : v.queue = [])
    (ht : Ticks v.timers v.next v.now now) (h : Draining r i v lot) :
    Draining r i (v.advanced now) lot := by
  cases lot with
  | untouched =>
    have hrunning : Running r i v .untouched := h
    exact hrunning.advance orderly hqueue ht
  | started τ =>
    exact h.imp (fun h ↦ ⟨h.1.advance orderly hqueue ht, h.2⟩) (Leaving.advance now hqueue)

/-! ## Work underway -/

section Active

variable {v : View} {slot : Slot Rehearsal.Invocation} (hslot : v.slot = some slot)
  (hactive : slot.isActive = true)
include hslot hactive

/-- If no turn is pending then the alarm of the attempt underway is still to come. -/
theorem Running.exists_alarm (orderly : r.script.Orderly) (h : Running r i v lot)
    (hqueue : v.queue = []) (hnext : v.next = []) : ∃ t ∈ v.timers, IsInstant t.due := by
  cases lot with
  | untouched =>
    obtain rfl := Option.some_inj.1 (hslot.symm.trans h.2)
    cases hactive
  | started τ =>
    cases h with
    | fresh _ now turn => simp [hqueue, hnext] at turn
    | underway attempt start w _ pos instant course pace =>
      rw [hqueue, hnext] at pace
      exact pace.exists_alarm (orderly.delay r.component) instant
    | finished w slot' =>
      obtain rfl := Option.some_inj.1 (hslot.symm.trans slot')
      cases hactive
    | settled o slot' =>
      obtain rfl := Option.some_inj.1 (hslot.symm.trans slot')
      cases hactive

/-- Interrupted work has its turn. -/
theorem Draining.exists_turn (h : Draining r i v lot) : .work i ∈ v.queue ++ v.next := by
  cases lot with
  | untouched =>
    obtain rfl := Option.some_inj.1 (hslot.symm.trans h.2)
    cases hactive
  | started τ =>
    obtain ⟨-, hinactive⟩ | h := h
    · rw [hinactive slot hslot] at hactive
      cases hactive
    · cases h with
      | waits w cue awaits rung slot' stage aftermath outstanding turn => exact turn
      | left w slot' =>
        obtain rfl := Option.some_inj.1 (hslot.symm.trans slot')
        cases hactive

end Active

/-! ## Turns of the coordinator -/

section Changes

variable {v : View} {skips : List (Float × Event)} (hskips : ∀ e ∈ skips, ∃ c, e.2 = skipEvent c)
include hskips

theorem told_changed (slot : Option (Slot Rehearsal.Invocation)) (new : List Turn) :
    (v.changed slot new skips).told = v.told :=
  v.told_append hskips slot _

theorem finishes_changed (slot : Option (Slot Rehearsal.Invocation)) (new : List Turn) :
    (v.changed slot new skips).finishes = v.finishes :=
  congrArg Prod.snd (told_changed hskips slot new)

omit hskips in
theorem idle_changed (h : v.Idle) (slot : Option (Slot Rehearsal.Invocation)) :
    (v.changed slot [] skips).Idle :=
  ⟨h.1, by simp [View.changed, h.2.1], h.2.2⟩

theorem untouched_changed (h : Untouched r v) (slot : Option (Slot Rehearsal.Invocation)) :
    Untouched r (v.changed slot [] skips) where
  idle := idle_changed h.idle slot
  calls := h.calls
  events e he := (List.mem_append.1 he).elim (hskips e) (h.events e)

/-- Ended work is settled. -/
theorem Running.settle (orderly : r.script.Orderly) (h : Running r i v lot) :
    Running r i (v.changed (v.slot.map Slot.settle) [] skips) lot := by
  cases lot with
  | untouched => exact ⟨untouched_changed hskips h.1 _, by rw [View.changed, h.2]; rfl⟩
  | started τ =>
    cases h with
    | fresh slot now turn timers calls told =>
      refine .fresh ?_ now ?_ timers calls ?_
      · rw [View.changed, slot]
        rfl
      · simpa [View.changed] using turn
      · rwa [told_changed hskips]
    | underway attempt start w slot pos instant course pace calls told origin traced =>
      obtain ⟨awaits, signals, hstage, -⟩ := pace.stage
      refine .underway attempt start w ?_ pos instant course ?_ calls ?_ origin
        (traced.mono (List.subset_append_right _ _))
      · rw [View.changed, slot]
        have hactive : (Slot.running w).isActive = true :=
          Slot.isActive_iff.2 ⟨w, rfl, by simp [hstage]⟩
        rw [Option.map_some, Slot.settle, Slot.finish?_of_isActive hactive]
      · simpa [View.changed] using pace
      · rwa [told_changed hskips]
    | finished w slot idle past calls told traced =>
      obtain ⟨o, ho, -⟩ := Role.courseFrom_outcome r orderly τ (attemptsLeft r.policy 1) 1 τ
      refine .settled o ?_ ho (idle_changed idle _) past calls ?_
        (traced.mono (List.subset_append_right _ _))
      · rw [View.changed, slot, show r.course τ = _ from rfl, Role.course, ho]
        rfl
      · rwa [told_changed hskips]
    | settled o slot outcome idle past calls told traced =>
      refine .settled o ?_ outcome (idle_changed idle _) past calls ?_
        (traced.mono (List.subset_append_right _ _))
      · rw [View.changed, slot]
        rfl
      · rwa [told_changed hskips]

/-- The component is started. -/
theorem launched (h : Untouched r v) :
    OnCourse r i v.now
      (v.changed (some (.running { started := v.now })) [.work i] skips) := by
  refine .fresh rfl rfl ?_ h.idle.2.2 h.calls ?_
  · simp [View.changed, h.idle.1, h.idle.2.1]
  · rw [told_changed hskips]
    exact h.told

/-- All work that waits is interrupted. -/
theorem Running.drain (hfresh : ∀ slot ∈ v.slot, slot.isFresh = false)
    (h : Running r i v lot) :
    Draining r i (v.changed (v.slot.map Slot.interrupted)
      (if v.slot.any Slot.isIdle then [.work i] else []) skips) lot := by
  cases lot with
  | untouched =>
    refine ⟨?_, by rw [View.changed, h.2]; rfl⟩
    rw [h.2]
    exact untouched_changed hskips h.1 _
  | started τ =>
    cases h with
    | fresh slot => cases hfresh _ slot
    | underway attempt start w slot pos instant course pace calls told =>
      obtain ⟨awaits, signals, hstage, houtstanding, hqueued⟩ := pace.stage
      obtain ⟨started, n, outstanding, expired, stage⟩ := w
      obtain rfl : stage = _ := hstage
      obtain ⟨queued, rung, interrupted⟩ := signals
      refine .inr (.waits ⟨started, n, outstanding + 1, expired,
        .suspended (.waiting (r.cue attempt)) awaits ⟨true, rung, true⟩⟩ (r.cue attempt) awaits rung ?_
        rfl (Role.cue_aftermath r attempt) ?_ ?_ ?_ ?_)
      · rw [View.changed, slot]
        rfl
      · dsimp only at houtstanding ⊢
        split <;> simp_all
      · rw [slot]
        cases queued with
        | true => simpa [View.changed, Slot.isIdle] using hqueued rfl
        | false => simp [View.changed, Slot.isIdle]
      · change r.earlier < v.calls
        omega
      · rw [finishes_changed hskips]
        exact congrArg Prod.snd told
    | finished w slot idle past calls told traced =>
      refine .inl ⟨.finished w ?_ ?_ past calls ?_ (traced.mono (List.subset_append_right _ _)), ?_⟩
      · rw [View.changed, slot]
        rfl
      · rw [slot]
        exact idle_changed idle _
      · rwa [told_changed hskips]
      · rw [View.changed, slot]
        rintro slot' ⟨⟩
        rfl
    | settled o slot outcome idle past calls told traced =>
      refine .inl ⟨.settled o ?_ outcome ?_ past calls ?_
        (traced.mono (List.subset_append_right _ _)), ?_⟩
      · rw [View.changed, slot]
        rfl
      · rw [slot]
        exact idle_changed idle _
      · rwa [told_changed hskips]
      · rw [View.changed, slot]
        rintro slot' ⟨⟩
        rfl

/-- The run ends when all that was started is settled. -/
theorem Running.over (cancelled : Bool) (hrunning : ∀ slot ∈ v.slot, slot.isRunning = false)
    (h : Running r i v lot) :
    Over r cancelled (v.changed
      (v.slot.map (Slot.skip r.component (skipReason cancelled))) [] skips) lot := by
  cases lot with
  | untouched =>
    refine ⟨_, by rw [View.changed, h.2]; rfl, .untouched h.1.calls ?_⟩
    rw [told_changed hskips]
    exact h.1.told
  | started τ =>
    cases h with
    | fresh slot => cases hrunning _ slot
    | underway attempt start w slot => cases hrunning _ slot
    | finished w slot => cases hrunning _ slot
    | settled o slot outcome idle past calls told traced =>
      refine ⟨o, by rw [View.changed, slot]; rfl, .course outcome past calls ?_
        (traced.mono (List.subset_append_right _ _))⟩
      rwa [told_changed hskips]

/-- The run ends when all interrupted work has ended. -/
theorem Draining.over (orderly : r.script.Orderly) (hactive : ∀ slot ∈ v.slot, slot.isActive = false)
    (h : Draining r i v lot) :
    Over r true (v.changed (v.slot.map fun slot ↦
      (slot.drained r.component).skip r.component (skipReason true)) [] skips) lot := by
  cases lot with
  | untouched =>
    refine ⟨_, by rw [View.changed, h.2]; rfl, .untouched h.1.calls ?_⟩
    rw [told_changed hskips]
    exact h.1.told
  | started τ =>
    obtain ⟨h, -⟩ | h := h
    · cases h with
      | fresh slot => cases hactive _ slot
      | underway attempt start w slot pos instant course pace =>
        obtain ⟨awaits, signals, hstage, -⟩ := pace.stage
        have hw : (Slot.running w).isActive = true :=
          Slot.isActive_iff.2 ⟨w, rfl, by simp [hstage]⟩
        rw [hactive _ slot] at hw
        cases hw
      | finished w slot idle past calls told traced =>
        obtain ⟨o, ho, -⟩ := Role.courseFrom_outcome r orderly τ (attemptsLeft r.policy 1) 1 τ
        refine ⟨o, ?_, .course ho past calls ?_ (traced.mono (List.subset_append_right _ _))⟩
        · rw [View.changed, slot, show r.course τ = _ from rfl, Role.course, ho]
          rfl
        · rwa [told_changed hskips]
      | settled o slot outcome idle past calls told traced =>
        refine ⟨o, by rw [View.changed, slot]; rfl, .course outcome past calls ?_
          (traced.mono (List.subset_append_right _ _))⟩
        rwa [told_changed hskips]
    · cases h with
      | waits w cue awaits rung slot stage =>
        have hw : (Slot.running w).isActive = true :=
          Slot.isActive_iff.2 ⟨w, rfl, by simp [stage]⟩
        rw [hactive _ slot] at hw
        cases hw
      | left w slot calls finishes =>
        refine ⟨_, by rw [View.changed, slot]; rfl, .interrupted rfl calls ?_⟩
        rwa [finishes_changed hskips]

end Changes

end Standing

end Testbed.Run
