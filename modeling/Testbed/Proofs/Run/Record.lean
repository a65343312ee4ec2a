import Testbed.Proofs.Run.Endings
import Testbed.Proofs.Run.Skips
import Testbed.Proofs.Run.Steps

/-!
# Records of components

What the events about a component say is what has become of it.  Each attempt is told of when it
starts, in the order of the attempts, and with each the runner is called once; the end of the work, or
the skip of the component, is told of once and last.  This holds in every state of a scripted run,
whatever its clock shows.
-/

namespace Testbed

open Run Clock

namespace Run

/-- The events that tell of the first attempts at a component, the last one first. -/
def startedEvents (component : String) : Nat → List Event
  | 0 => []
  | attempts + 1 => startedEvent component (attempts + 1) :: startedEvents component attempts

/-- What is told of a component, the last event first. -/
def View.tells (v : View) : List Event :=
  v.events.map (·.2)

/-- The event of the end of work on a component that was tested to the end. -/
def Outcome.finish (o : Outcome) (elapsed : Float) (attempts : Nat) : Event where
  component := o.component
  phase := .finished
  status := some o.status
  elapsed := elapsed
  attempt := attempts

/-- The component was tested to the end. -/
structure Tested (r : Role) (v : View) (o : Outcome) : Prop where
  component : o.component = r.component
  status : o.status ∈ [.passed, .failed, .errored]
  told : ∃ attempts elapsed, 1 ≤ attempts ∧ o.attempts = (attempts : Nat) ∧ o.duration = .real elapsed ∧
    v.calls = r.earlier + attempts ∧
      v.tells = Outcome.finish o elapsed attempts :: startedEvents r.component attempts

theorem Tested.congr {r : Role} {v v' : View} {o : Outcome} (h : Tested r v o)
    (hcalls : v'.calls = v.calls) (hevents : v'.events = v.events) : Tested r v' o := by
  obtain ⟨component, status, attempts, elapsed, pos, hattempts, hduration, calls, told⟩ := h
  refine ⟨component, status, attempts, elapsed, pos, hattempts, hduration, hcalls.trans calls, ?_⟩
  rw [View.tells, hevents]
  exact told

/-- The component was skipped after some attempts at it, for a reason that goes with them. -/
structure Omitted (r : Role) (v : View) (reason : String) (attempts : Nat) : Prop where
  calls : v.calls = r.earlier + attempts
  told : v.tells = skipEvent r.component :: startedEvents r.component attempts
  reason : reason = interruptedCancelled ∧ 1 ≤ attempts ∨
    (reason = skippedFailFast ∨ reason = skippedCancelled) ∧ attempts = 0

/-- What is on record about a component. -/
inductive Record (r : Role) (v : View) : Prop
  | pending (slot : v.slot = some .pending) (calls : v.calls = r.earlier) (told : v.tells = [])
  | fresh (w : Worker Rehearsal.Invocation) (slot : v.slot = some (.running w))
    (stage : w.stage = .fresh) (attempt : w.attempt = 1) (calls : v.calls = r.earlier)
    (told : v.tells = [])
  | waiting (w : Worker Rehearsal.Invocation) (n : Nat) (awaits : List Nat) (signals : Signals)
    (slot : v.slot = some (.running w))
    (stage : w.stage = .suspended (.waiting (r.script.cue r.component n)) awaits signals)
    (pos : 1 ≤ w.attempt) (calls : v.calls = r.earlier + w.attempt)
    (told : v.tells = startedEvents r.component w.attempt)
  | interrupted (w : Worker Rehearsal.Invocation) (attempts : Nat)
    (slot : v.slot = some (.running { w with stage := .finished .interrupted }))
    (pos : 1 ≤ attempts) (calls : v.calls = r.earlier + attempts)
    (told : v.tells = startedEvents r.component attempts)
  | finished (w : Worker Rehearsal.Invocation) (o : Outcome)
    (slot : v.slot = some (.running { w with stage := .finished (.outcome o) })) (tested : Tested r v o)
  | settled (o : Outcome) (slot : v.slot = some (.settled o)) (tested : Tested r v o)
  | skipped (reason : String) (attempts : Nat)
    (slot : v.slot = some (.settled (skipped r.component reason)))
    (omitted : Omitted r v reason attempts)

/-- An answer that counts is one that a scripted runner gives, or tells of a time limit. -/
theorem Script.Orderly.assess_status {script : Script} (h : script.Orderly) {policy : Policy}
    {expired interrupted retryable : Bool} {outstanding n : Nat} {c : String} {answer : Answer}
    (heq : assess policy expired outstanding
      (if interrupted then .interrupted else (script.cue c n).ending) = .counted answer retryable) :
    answer.status ∈ [.passed, .failed, .errored] := by
  cases interrupted with
  | true =>
    simp only [if_true, assess] at heq
    split at heq
    · cases heq
      simp [timedOut]
    · cases heq
  | false =>
    simp only [Bool.false_eq_true, if_false] at heq
    obtain ⟨answer', hending, hstatus⟩ | ⟨failure, hending⟩ := Script.Orderly.cue_ending h c n
    · rw [hending, assess] at heq
      cases heq
      split <;> exact hstatus
    · rw [hending, assess] at heq
      split at heq <;> cases heq <;> simp [timedOut]

namespace Record

variable {r : Role} {v v' : View} {i : Nat} {w : Worker Rehearsal.Invocation}

/-- A record does not depend on the clock and on what is pending. -/
theorem congr (h : Record r v) (hslot : v'.slot = v.slot) (hcalls : v'.calls = v.calls)
    (hevents : v'.events = v.events) : Record r v' := by
  have htells : v'.tells = v.tells := by rw [View.tells, hevents, View.tells]
  cases h with
  | pending slot calls told => exact .pending (hslot.trans slot) (hcalls.trans calls) (htells.trans told)
  | fresh w slot stage attempt calls told =>
    exact .fresh w (hslot.trans slot) stage attempt (hcalls.trans calls) (htells.trans told)
  | waiting w n awaits signals slot stage pos calls told =>
    exact .waiting w n awaits signals (hslot.trans slot) stage pos (hcalls.trans calls)
      (htells.trans told)
  | interrupted w attempts slot pos calls told =>
    exact .interrupted w attempts (hslot.trans slot) pos (hcalls.trans calls) (htells.trans told)
  | finished w o slot tested => exact .finished w o (hslot.trans slot) (tested.congr hcalls hevents)
  | settled o slot tested => exact .settled o (hslot.trans slot) (tested.congr hcalls hevents)
  | skipped reason attempts slot omitted =>
    exact .skipped reason attempts (hslot.trans slot)
      ⟨hcalls.trans omitted.calls, htells.trans omitted.told, omitted.reason⟩

/-! ## Attempts -/

/-- An attempt begins. -/
theorem begun (pos : 1 ≤ w.attempt) (calls : v.calls = r.earlier + (w.attempt - 1))
    (told : v.tells = startedEvents r.component (w.attempt - 1)) :
    Record r (v.begun r.policy r.script i r.component w) := by
  obtain ⟨attempts, hattempts⟩ := Nat.exists_eq_add_of_le' pos
  have hcalls : (v.begun r.policy r.script i r.component w).calls = r.earlier + w.attempt := by
    change v.calls + 1 = _
    omega
  have htold : (v.begun r.policy r.script i r.component w).tells =
      startedEvents r.component w.attempt := by
    change startedEvent r.component w.attempt :: v.tells = _
    rw [told, hattempts, Nat.add_sub_cancel, startedEvents]
  by_cases hdelay : r.script.delay r.component ≤ 0
  · refine .waiting { w with stage := _ } v.calls [] { queued := true } ?_ rfl pos hcalls htold
    simp only [View.begun, if_pos hdelay]
  · refine .waiting { w with stage := _ } v.calls [0] {} ?_ rfl pos hcalls htold
    simp only [View.begun, if_neg hdelay]

/-- An attempt ends, and the next one begins or the work ends. -/
theorem ended (orderly : r.script.Orderly) (pos : 1 ≤ w.attempt)
    (calls : v.calls = r.earlier + w.attempt) (told : v.tells = startedEvents r.component w.attempt)
    (left n : Nat) (interrupted : Bool) :
    Record r (v.ended r.policy r.script i r.component left w
      (if interrupted then .interrupted else (r.script.cue r.component n).ending)) := by
  generalize hassess : assess r.policy w.released.expired w.released.outstanding
    (if interrupted then .interrupted else (r.script.cue r.component n).ending) = assessment
  rw [View.ended]
  simp only [hassess]
  cases assessment with
  | interrupted => exact .interrupted w.released w.attempt rfl pos calls told
  | counted answer retryable =>
    have hconcluded : Record r (v.concluded r.component w.released answer) := by
      refine .finished w.released _ rfl ⟨rfl, Script.Orderly.assess_status orderly hassess, w.attempt, _, pos, rfl, rfl,
        calls, ?_⟩
      exact congrArg (_ :: ·) told
    dsimp only
    split
    · cases left with
      | zero => exact hconcluded
      | succ left => exact begun (Nat.le_add_left 1 _) calls told
    · exact hconcluded

/-! ## Turns -/

/-- Work whose first attempt is still to be made waits for its turn alone. -/
theorem handle_fresh {s : ScriptState} {t : Turn} (ht : t.place? = some i) (hne : t ≠ .work i)
    (hslot : s.slot? i = some (.running w)) (hstage : w.stage = .fresh)
    (setup : Setup Rehearsal.Shared Rehearsal.Invocation) : Run.handle setup t s = s := by
  cases t with
  | work j =>
    obtain rfl : j = i := by simpa using ht
    exact absurd rfl hne
  | expire j n =>
    obtain rfl : j = i := by simpa using ht
    simp only [Run.handle, expire, State.worker?_eq_some.2 hslot, hstage]
  | ring j n alarm =>
    obtain rfl : j = i := by simpa using ht
    simp only [Run.handle, ring, State.worker?_eq_some.2 hslot, hstage]
  | cancel | watch | notice | coordinate => cases ht

/-- A turn about a place whose invocation waits. -/
theorem handle_waiting {s : ScriptState} {t : Turn} {n : Nat} {awaits : List Nat} {signals : Signals}
    (orderly : r.script.Orderly) (ht : t.place? = some i)
    (hplace : s.places[i]? = some { component := r.component, slot := .running w })
    (hstage : w.stage = .suspended (.waiting (r.script.cue r.component n)) awaits signals)
    (hpos : 1 ≤ w.attempt) (hcalls : (s.view i r.component).calls = r.earlier + w.attempt)
    (htold : (s.view i r.component).tells = startedEvents r.component w.attempt) :
    Record r ((Run.handle (r.script.setup r.policy) t s).view i r.component) := by
  have hslot : s.slot? i = some (.running w) := State.slot?_eq_some.2 ⟨_, hplace⟩
  have hsame : Record r (s.view i r.component) :=
    .waiting w n awaits signals hslot hstage hpos hcalls htold
  cases t with
  | work j =>
    obtain rfl : j = i := by simpa using ht
    obtain ⟨queued, rung, interrupted⟩ := signals
    cases queued with
    | false =>
      have hwork : work (r.script.setup r.policy) j s = s := by
        rw [work, hplace]
        simp only [hstage]
      rwa [Run.handle, hwork]
    | true =>
      rw [Run.handle, view_work_suspended r.script r.policy hplace hstage rfl]
      exact ended (v := { s.view j r.component with
        timers := dropAllTimers j (s.view j r.component).timers }) orderly hpos hcalls htold _ n
          interrupted
  | expire j m =>
    obtain rfl : j = i := by simpa using ht
    rw [Run.handle, view_expire m hslot hstage]
    split
    · exact .waiting _ n awaits _ rfl rfl hpos hcalls htold
    · exact hsame
  | ring j m alarm =>
    obtain rfl : j = i := by simpa using ht
    rw [Run.handle, view_ring m alarm hslot hstage]
    split
    · exact .waiting _ n awaits _ rfl rfl hpos hcalls htold
    · exact hsame
  | cancel | watch | notice | coordinate => cases ht

/-- A turn about the place is taken. -/
theorem handle {s : ScriptState} {t : Turn} (orderly : r.script.Orderly) (ht : t.place? = some i)
    (hcomponent : ∀ place, s.places[i]? = some place → place.component = r.component)
    (h : Record r (s.view i r.component)) :
    Record r ((Run.handle (r.script.setup r.policy) t s).view i r.component) := by
  have hplace {w : Worker Rehearsal.Invocation} (hslot : s.slot? i = some (.running w)) :
      s.places[i]? = some { component := r.component, slot := .running w } := by
    obtain ⟨c, hc⟩ := State.slot?_eq_some.1 hslot
    rw [hc, ← hcomponent _ hc]
  have hidle {slot : Slot Rehearsal.Invocation} (hslot : s.slot? i = some slot)
      (ha : slot.isActive = false) :
      Record r ((Run.handle (r.script.setup r.policy) t s).view i r.component) := by
    rwa [handle_inactive ht (by rw [State.isActive, hslot]; exact ha)]
  cases h with
  | pending slot => exact hidle slot rfl
  | interrupted w attempts slot => exact hidle slot rfl
  | finished w o slot => exact hidle slot rfl
  | settled o slot => exact hidle slot rfl
  | skipped reason attempts slot => exact hidle slot rfl
  | fresh w slot stage attempt calls told =>
    by_cases hne : t = .work i
    · rw [hne, Run.handle, view_work_fresh r.script r.policy (hplace slot) stage]
      refine begun attempt.ge ?_ ?_
      · rw [attempt]
        exact calls
      · rw [attempt]
        exact told
    · rw [handle_fresh ht hne slot stage]
      exact .fresh w slot stage attempt calls told
  | waiting w n awaits signals slot stage pos calls told =>
    exact handle_waiting orderly ht (hplace slot) stage pos calls told

/-! ## Turns of the coordinator -/

/-- Ended work is settled. -/
theorem settle (h : Record r v) : Record r (v.changed (v.slot.map Slot.settle) [] []) := by
  have hsame {slot : Slot Rehearsal.Invocation} (hslot : v.slot = some slot)
      (hsettle : slot.settle = slot) : Record r (v.changed (v.slot.map Slot.settle) [] []) :=
    h.congr (by rw [View.changed, hslot, Option.map_some, hsettle]) rfl rfl
  have hrunning {w : Worker Rehearsal.Invocation} (hslot : v.slot = some (.running w))
      (hstage : ∀ f, w.stage ≠ .finished f) :
      Record r (v.changed (v.slot.map Slot.settle) [] []) := by
    refine hsame hslot ?_
    rcases w with ⟨_, _, _, _, _ | _ | f⟩
    · rfl
    · rfl
    · exact absurd rfl (hstage f)
  cases h with
  | pending slot => exact hsame slot rfl
  | fresh w slot stage => exact hrunning slot (by simp [stage])
  | waiting w n awaits signals slot stage => exact hrunning slot (by simp [stage])
  | interrupted w attempts slot => exact hsame slot rfl
  | finished w o slot tested =>
    refine .settled o ?_ (tested.congr rfl rfl)
    rw [View.changed, slot]
    rfl
  | settled o slot => exact hsame slot rfl
  | skipped reason attempts slot => exact hsame slot rfl

/-- All work that waits is interrupted. -/
theorem interrupt (h : Record r v) (turns : List Turn) :
    Record r (v.changed (v.slot.map Slot.interrupted) turns []) := by
  have hsame {slot : Slot Rehearsal.Invocation} (hslot : v.slot = some slot)
      (hinterrupted : slot.interrupted = slot) :
      Record r (v.changed (v.slot.map Slot.interrupted) turns []) :=
    h.congr (by rw [View.changed, hslot, Option.map_some, hinterrupted]) rfl rfl
  cases h with
  | pending slot => exact hsame slot rfl
  | fresh w slot stage =>
    refine hsame slot ?_
    rw [Slot.interrupted, stage]
  | waiting w n awaits signals slot stage pos calls told =>
    obtain ⟨started, attempt, outstanding, expired, stage'⟩ := w
    obtain rfl : stage' = _ := stage
    refine .waiting ⟨started, attempt, outstanding + 1, expired, .suspended _ awaits
      { signals with queued := true, interrupted := true }⟩ n awaits _ ?_ rfl pos calls told
    rw [View.changed, slot]
    rfl
  | interrupted w attempts slot => exact hsame slot rfl
  | finished w o slot => exact hsame slot rfl
  | settled o slot => exact hsame slot rfl
  | skipped reason attempts slot => exact hsame slot rfl

/-- Nothing is told of a component that was not started. -/
theorem of_pending (h : Record r v) (hslot : v.slot = some .pending) :
    v.calls = r.earlier ∧ v.tells = [] := by
  cases h with
  | pending slot calls told => exact ⟨calls, told⟩
  | fresh w slot => cases hslot.symm.trans slot
  | waiting w n awaits signals slot => cases hslot.symm.trans slot
  | interrupted w attempts slot => cases hslot.symm.trans slot
  | finished w o slot => cases hslot.symm.trans slot
  | settled o slot => cases hslot.symm.trans slot
  | skipped reason attempts slot => cases hslot.symm.trans slot

/-- The component is started. -/
theorem launch (h : Record r v) (hslot : v.slot = some .pending) (now : Float) (turns : List Turn) :
    Record r (v.changed (some (.running { started := now })) turns []) :=
  .fresh _ rfl rfl rfl (h.of_pending hslot).1 (h.of_pending hslot).2

/-- A component that was never started is skipped. -/
theorem skip (h : Record r v) (hslot : v.slot = some .pending) (cancelled : Bool) (now : Float) :
    Record r (v.changed (some (.settled (Run.skipped r.component (skipReason cancelled)))) []
      [(now, skipEvent r.component)]) := by
  obtain ⟨calls, told⟩ := h.of_pending hslot
  refine .skipped _ 0 rfl ⟨calls, congrArg (skipEvent r.component :: ·) told, .inr ⟨?_, rfl⟩⟩
  cases cancelled
  · exact .inl rfl
  · exact .inr rfl

/-- The run ends when nothing is underway. -/
theorem complete {slot : Slot Rehearsal.Invocation} (h : Record r v) (hslot : v.slot = some slot)
    (cancelled : Bool) (now : Float) :
    Record r (v.changed (some (slot.skip r.component (skipReason cancelled))) []
      (if slot.isPending then [(now, skipEvent r.component)] else [])) := by
  cases slot with
  | pending => exact h.skip hslot cancelled now
  | running w => exact h.congr hslot.symm rfl rfl
  | settled o => exact h.congr hslot.symm rfl rfl

/-- The run ends when all interrupted work has ended. -/
theorem concludeDrain {slot : Slot Rehearsal.Invocation} (h : Record r v) (hslot : v.slot = some slot)
    (hactive : slot.isActive = false) (cancelled : Bool) (now : Float) :
    Record r (v.changed (some ((slot.drained r.component).skip r.component (skipReason cancelled))) []
      (if slot.isPending || slot.isLeft then [(now, skipEvent r.component)] else [])) := by
  cases slot with
  | pending => exact h.skip hslot cancelled now
  | settled o => exact h.congr hslot.symm rfl rfl
  | running w =>
    have hstage (hw : ∀ f, w.stage ≠ .finished f) : False := by
      rw [Slot.isActive_iff.2 ⟨w, rfl, hw⟩] at hactive
      cases hactive
    cases h with
    | pending slot => cases hslot.symm.trans slot
    | fresh w' slot stage =>
      cases hslot.symm.trans slot
      exact (hstage (by simp [stage])).elim
    | waiting w' n awaits signals slot stage =>
      cases hslot.symm.trans slot
      exact (hstage (by simp [stage])).elim
    | interrupted w' attempts slot pos calls told =>
      cases hslot.symm.trans slot
      exact .skipped _ attempts rfl
        ⟨calls, congrArg (skipEvent r.component :: ·) told, .inl ⟨rfl, pos⟩⟩
    | finished w' o slot tested =>
      cases hslot.symm.trans slot
      exact .settled o rfl (tested.congr rfl rfl)
    | settled o slot => cases hslot.symm.trans slot
    | skipped reason attempts slot => cases hslot.symm.trans slot

end Record

/-! ## Runs -/

variable {p : Production} {lots : Nat → Lot} {s s' : ScriptState} {t : Turn} {i : Nat} {c : String}

/-- Every component of a run has its record. -/
def Recorded (p : Production) (s : ScriptState) : Prop :=
  ∀ i c, p.components[i]? = some c → Record (p.role c) (s.view i c)

namespace Recorded

/-- What happens to each component on its own. -/
theorem change (hs : Recorded p s)
    (h : ∀ i c, p.components[i]? = some c → Record (p.role c) (s.view i c) →
      Record (p.role c) (s'.view i c)) : Recorded p s' :=
  fun i c hc ↦ h i c hc (hs i c hc)

theorem turned (sound : p.Sound) (hs : Recorded p s)
    (hcomponents : s.places.map (·.component) = p.components) (ht : t.place? = some i) :
    Recorded p (handle p.setup t s) := by
  have hof {j : Nat} {place : Place Rehearsal.Invocation} (h : s.places[j]? = some place) :
      p.components[j]? = some place.component := by
    rw [← hcomponents, List.getElem?_map, h]
    rfl
  refine hs.change fun j c hc h ↦ ?_
  by_cases hij : j = i
  · subst hij
    refine h.handle sound.orderly ht fun place hplace ↦ ?_
    exact Option.some_inj.1 ((hof hplace).symm.trans hc)
  · rw [Production.setup, view_other ht hij fun place hplace hcomponent ↦ hij ?_]
    · exact h
    · have hi := hof hplace
      rw [hcomponent] at hi
      exact (List.getElem?_inj (List.getElem?_eq_some_iff.1 hc).1 sound.nodup).1 (hc.trans hi.symm)

theorem advance (hs : Recorded p s) : Recorded p s.advance :=
  hs.change fun i c _ h ↦ by
    rw [view_advance]
    exact h.congr rfl rfl rfl

theorem told (hs : Recorded p s) (ht : t.place? = none) (hne : t ≠ .coordinate) :
    Recorded p (handle p.setup t s) :=
  hs.change fun i c _ h ↦ by rwa [Production.setup, view_notice_like ht hne]

/-! ### The coordinator -/

theorem collected (hs : Recorded p s) (habort : s.abort? p.setup = none) :
    Recorded p (s.collected p.setup) :=
  hs.change fun i c _ h ↦ by
    rw [view_collected habort]
    exact h.settle

theorem drain (hs : Recorded p s) (cause : Option Abort) : Recorded p (drain cause s) :=
  hs.change fun i c _ h ↦ by
    rw [view_drain]
    exact h.interrupt _

theorem note (hs : Recorded p s) (line : LogLine) : Recorded p (s.note (.log line)) :=
  hs.change fun i c _ h ↦ by rwa [view_note_log]

/-- The place of a component in a run. -/
theorem place (hcomponents : s.places.map (·.component) = p.components)
    (hc : p.components[i]? = some c) : ∃ slot, s.places[i]? = some { component := c, slot := slot } := by
  rw [← hcomponents, List.getElem?_map, Option.map_eq_some_iff] at hc
  obtain ⟨place, hplace, rfl⟩ := hc
  exact ⟨place.slot, hplace⟩

theorem complete (sound : p.Sound) (hcomponents : s.places.map (·.component) = p.components)
    (hs : Recorded p s) : Recorded p (complete p.setup s) :=
  hs.change fun i c hc h ↦ by
    obtain ⟨slot, hplace⟩ := place hcomponents hc
    rw [Production.setup, view_complete_eq _ _ (hcomponents ▸ sound.nodup) hplace]
    exact h.complete (State.slot?_eq_some.2 ⟨c, hplace⟩) _ _

theorem concludeDrain (sound : p.Sound) (hcomponents : s.places.map (·.component) = p.components)
    (hactive : s.activeCount = 0) (hs : Recorded p s) : Recorded p (concludeDrain p.setup none s) :=
  hs.change fun i c hc h ↦ by
    obtain ⟨slot, hplace⟩ := place hcomponents hc
    rw [Production.setup, view_concludeDrain_eq _ _ (hcomponents ▸ sound.nodup) hplace]
    have hinactive := List.countP_eq_zero.1 hactive _ (List.mem_of_getElem? hplace)
    exact h.concludeDrain (State.slot?_eq_some.2 ⟨c, hplace⟩) (by simpa using hinactive) _ _

theorem launch (hs : Recorded p s) (free : Nat) : Recorded p (launch free s) :=
  hs.change fun i c _ h ↦ by
    rw [view_launch]
    split
    · next hi =>
      obtain ⟨slot, hslot, hpending⟩ := State.mem_placesWith.1 (List.mem_of_mem_take hi)
      cases slot with
      | pending => exact h.launch hslot _ _
      | running | settled => cases hpending
    · exact h

theorem fill (sound : p.Sound) (hcomponents : s.places.map (·.component) = p.components)
    (hs : Recorded p s) : Recorded p (fill p.setup s) := by
  have hfilled : Recorded p (s.filled p.setup) := by
    rw [State.filled]
    split
    · exact hs
    · exact hs.launch _
  rw [fill_eq]
  split
  · exact hfilled.complete sound ((filled_components p.setup s).trans hcomponents)
  · exact hfilled

/-- The coordinator has its turn. -/
theorem coordinate (sound : p.Sound) (hcomponents : s.places.map (·.component) = p.components)
    (h : Coordinates p s s') (hs : Recorded p s) : Recorded p s' := by
  have hcomponents' := (collected_components p.setup s).trans hcomponents
  cases h with
  | fills waiting cancelled abort eq =>
    rw [eq]
    exact (hs.collected abort).fill sound hcomponents'
  | drains line waiting cancelled abort eq =>
    rw [eq]
    exact ((hs.collected abort).note line).drain none
  | ends line waiting cancelled abort idle eq =>
    rw [eq]
    exact ((hs.collected abort).note line).concludeDrain sound hcomponents'
      (activeCount_of_runningCount idle)
  | drained draining idle eq =>
    rw [eq]
    exact hs.concludeDrain sound hcomponents idle

theorem step (sound : p.Sound) (hcontrol : Control s) (hplay : Play p lots s)
    (hdone : s.isDone = false) (hs : Recorded p s) : Recorded p (step p.setup s) := by
  obtain ⟨stand, hscene⟩ := hplay.scene
  have hs' (rest : List Turn) : Recorded p { s with queue := rest } :=
    hs.change fun _ _ _ h ↦ h.congr rfl rfl rfl
  cases hplay.stepped sound hcontrol hdone with
  | advances queue eq =>
    rw [eq]
    exact hs.advance
  | turns t i rest queue place eq =>
    rw [eq]
    exact (hs' rest).turned sound hscene.components place
  | tells t rest queue place ne eq =>
    rw [eq]
    exact (hs' rest).told place ne
  | coordinates rest queue coordinates =>
    exact (hs' rest).coordinate sound (by exact hscene.components) coordinates

theorem steps (sound : p.Sound) (hcontrol : Control s) (hplay : Play p lots s) (hs : Recorded p s)
    (n : Nat) : Recorded p (steps p.setup n s) :=
  Play.steps_keep sound (fun hcontrol hplay hdone hs ↦ hs.step sound hcontrol hplay hdone) hcontrol
    hplay hs n

/-- A run begins with nothing told. -/
theorem opening {shared : Rehearsal.Shared} (hearlier : ∀ c, p.earlier c = shared.count c)
    (cancellation : Cancellation) (now : Float) :
    Recorded p (.opening p.setup cancellation now shared p.components) := by
  intro i c hc
  refine .pending ?_ (hearlier c).symm rfl
  simp [State.view, State.opening, State.slot?, hc]

theorem begin (sound : p.Sound) {shared : Rehearsal.Shared}
    (hearlier : ∀ c, p.earlier c = shared.count c) (cancellation : Cancellation) (now : Float) :
    Recorded p (begin p.setup cancellation now shared p.components) :=
  (opening hearlier cancellation now).fill sound (List.map_map.trans (List.map_id _))

end Recorded

end Run

end Testbed
