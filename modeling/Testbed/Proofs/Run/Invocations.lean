import Testbed.Proofs.Run.Rounds

/-!
# Invocations underway

A scripted runner keeps a record of its invocations.  A turn about a place adds to the record at most
one invocation, which is for the component at the place, and the runner is left for as often as it is
entered.  The events that the turn tells of are about that component too.
-/

namespace Testbed.Run

namespace Slot

variable {ι : Type}

/-- An invocation of the runner is underway. -/
def isInvoked : Slot ι → Bool
  | .running { stage := .suspended _ _ _, .. } => true
  | _ => false

theorem isInvoked_running {w : Worker ι} : (Slot.running w).isInvoked = true ↔
    ∃ invocation awaits signals, w.stage = .suspended invocation awaits signals := by
  rcases w with ⟨_, _, _, _, _ | _ | _⟩ <;> simp [isInvoked]

theorem isInvoked_of_isFresh {slot : Slot ι} (h : slot.isFresh = true) :
    slot.isInvoked = false := by
  obtain ⟨⟨_, _, _, _, _⟩, rfl, rfl⟩ := isFresh_iff.1 h
  rfl

theorem isActive_eq (slot : Slot ι) : slot.isActive = (slot.isFresh || slot.isInvoked) := by
  rcases slot with _ | ⟨_, _, _, _, _ | _ | _⟩ | _ <;> rfl

theorem isInvoked_settle (slot : Slot ι) : slot.settle.isInvoked = slot.isInvoked := by
  rcases slot with _ | ⟨_, _, _, _, _ | _ | _ | _ | _⟩ | _ <;> rfl

theorem isInvoked_interrupted (slot : Slot ι) : slot.interrupted.isInvoked = slot.isInvoked := by
  rcases slot with _ | ⟨_, _, _, _, _ | _ | _⟩ | _ <;> rfl

end Slot

def State.isInvoked {σ ι : Type} (s : State σ ι) (i : Nat) : Bool :=
  (s.slot? i).any Slot.isInvoked

theorem State.isActive_eq {σ ι : Type} (s : State σ ι) (i : Nat) :
    s.isActive i = (s.isFresh i || s.isInvoked i) := by
  rw [isActive, isFresh, isInvoked]
  cases s.slot? i with
  | none => rfl
  | some slot => exact slot.isActive_eq

variable {script : Script} {policy : Policy} {i : Nat} {c : String} {s s' : ScriptState} {t : Turn}
  {w : Worker Rehearsal.Invocation}

/-- What a turn about place `i`, at which component `c` is tested, does to the runner's record. -/
inductive Invoked (policy : Policy) (i : Nat) (c : String) (s s' : ScriptState) : Prop
  | rests (shared : s'.shared = s.shared) (invoked : s'.isInvoked i = s.isInvoked i)
  | enters (fresh : s.isFresh i = true)
    (shared : s'.shared = s.shared.enter ⟨c, policy.captureOutput, s.now⟩)
    (invoked : s'.isInvoked i = true)
  | leaves (before : s.isInvoked i = true) (shared : s'.shared = s.shared.leave)
    (invoked : s'.isInvoked i = false)
  | returns (before : s.isInvoked i = true)
    (shared : s'.shared = s.shared.leave.enter ⟨c, policy.captureOutput, s.now⟩)
    (invoked : s'.isInvoked i = true)

/-! ## Attempts -/

theorem attempt_shared (left : Nat) (s : ScriptState) :
    (attempt (script.setup policy) i c left w s).shared =
      s.shared.enter ⟨c, policy.captureOutput, s.now⟩ := by
  have hentered (s : ScriptState) : (s.entered script policy i c w.attempt).shared =
      s.shared.enter ⟨c, policy.captureOutput, s.now⟩ := by
    change (setLimit _ i w.attempt s).shared.enter ⟨c, _, (setLimit _ i w.attempt s).now⟩ = _
    rw [setLimit_shared, (setLimit_moves _ i w.attempt s).now]
  rw [attempt_scripted, startAttempt_scripted]
  dsimp only
  split <;> exact hentered _

theorem attempt_isInvoked (left : Nat) (hslot : (s.slot? i).isSome = true) :
    (attempt (script.setup policy) i c left w s).isInvoked i = true := by
  have hview : (attempt (script.setup policy) i c left w s).slot? i =
      ((s.view i c).begun policy script i c w).slot :=
    congrArg View.slot (view_attempt left hslot)
  rw [State.isInvoked, hview, View.begun]
  dsimp only
  split <;> rfl

theorem finish_isInvoked (f : Finish) (s : ScriptState) : (finish i w f s).isInvoked i = false := by
  rw [State.isInvoked, finish_eq, State.slot?, List.getElem?_modify_eq]
  cases s.places[i]? <;> rfl

theorem conclude_isInvoked (answer : Answer) (s : ScriptState) :
    (conclude (script.setup policy) i c w answer s).isInvoked i = false := by
  rw [conclude, (Script.setup_isQuiet script policy).emit]
  exact finish_isInvoked _ _

theorem conclude_shared (answer : Answer) (s : ScriptState) :
    (conclude (script.setup policy) i c w answer s).shared = s.shared := by
  rw [conclude, (Script.setup_isQuiet script policy).emit]
  rfl

/-- An attempt that ends is the last one, or the next one begins. -/
theorem endAttempt_invoked (left : Nat) (ending : Ending) (hslot : (s.slot? i).isSome = true)
    (hs' : s' = endAttempt (script.setup policy) i c (further (script.setup policy) i c left) w ending s) :
    s'.shared = s.shared ∧ s'.isInvoked i = false ∨
      s'.shared = s.shared.enter ⟨c, policy.captureOutput, s.now⟩ ∧ s'.isInvoked i = true := by
  subst hs'
  rw [endAttempt]
  dsimp only
  rw [State.noteAll_eq]
  split
  · exact .inl ⟨rfl, finish_isInvoked _ _⟩
  · split
    · cases left with
      | zero => exact .inl ⟨conclude_shared _ _, conclude_isInvoked _ _⟩
      | succ left => exact .inr ⟨attempt_shared left _, attempt_isInvoked left hslot⟩
    · exact .inl ⟨conclude_shared _ _, conclude_isInvoked _ _⟩

/-! ## Turns -/

theorem interrupt_invoked (i : Nat) (s : ScriptState) :
    (interrupt i s).shared = s.shared ∧ (interrupt i s).isInvoked i = s.isInvoked i := by
  rw [interrupt_eq]
  refine ⟨rfl, ?_⟩
  rw [State.isInvoked, State.slot?, List.getElem?_modify_eq, State.isInvoked, State.slot?]
  cases s.places[i]? with
  | none => rfl
  | some p => exact p.slot.isInvoked_interrupted

theorem setWorker_isInvoked (hs : s.isInvoked i = true) (hw : (Slot.running w).isInvoked = true) :
    (s.setWorker i w).isInvoked i = true := by
  obtain ⟨slot, hslot, -⟩ := (Option.any_eq_true _ _).1 hs
  rw [State.isInvoked, State.setWorker, State.slot?_setSlot, if_pos rfl, hslot]
  exact hw

theorem State.isInvoked_of_worker? (h : s.worker? i = some w)
    (hw : (Slot.running w).isInvoked = true) : s.isInvoked i = true := by
  rw [isInvoked, State.worker?_eq_some.1 h]
  exact hw

theorem expire_invoked (i n : Nat) (s : ScriptState) :
    (expire i n s).shared = s.shared ∧ (expire i n s).isInvoked i = s.isInvoked i := by
  unfold expire
  split
  · next w hworker =>
    obtain ⟨_, _, _, _, _ | _ | _⟩ := w
    · exact ⟨rfl, rfl⟩
    · dsimp only
      split
      · have hs := State.isInvoked_of_worker? hworker rfl
        obtain ⟨hshared, hinvoked⟩ := interrupt_invoked i (s.setWorker i _)
        exact ⟨hshared, (hinvoked.trans (setWorker_isInvoked hs rfl)).trans hs.symm⟩
      · exact ⟨rfl, rfl⟩
    · exact ⟨rfl, rfl⟩
  · exact ⟨rfl, rfl⟩

theorem ring_invoked (i n alarm : Nat) (s : ScriptState) :
    (ring i n alarm s).shared = s.shared ∧ (ring i n alarm s).isInvoked i = s.isInvoked i := by
  unfold ring
  split
  · next w hworker =>
    obtain ⟨_, _, _, _, _ | _ | _⟩ := w
    · exact ⟨rfl, rfl⟩
    · dsimp only
      have hs := State.isInvoked_of_worker? hworker rfl
      split
      · split
        · exact ⟨rfl, (setWorker_isInvoked hs rfl).trans hs.symm⟩
        · exact ⟨rfl, (setWorker_isInvoked hs rfl).trans hs.symm⟩
      · exact ⟨rfl, rfl⟩
    · exact ⟨rfl, rfl⟩
  · exact ⟨rfl, rfl⟩

theorem work_invoked (hplain : ∀ slot, s.slot? i = some slot → slot.IsPlain)
    (hc : ∀ p, s.places[i]? = some p → p.component = c) :
    Invoked policy i c s (work (script.setup policy) i s) := by
  cases hactive : s.isActive i
  · have hsame : work (script.setup policy) i s = s := handle_inactive (Turn.place?_work i) hactive
    rw [hsame]
    exact .rests rfl rfl
  obtain ⟨slot, hslot, ha⟩ := (Option.any_eq_true _ _).1 hactive
  obtain ⟨⟨started, n, outstanding, expired, stage⟩, rfl, hstage⟩ := Slot.isActive_iff.1 ha
  obtain ⟨c', hplace⟩ := State.slot?_eq_some.1 hslot
  obtain rfl : c' = c := hc _ hplace
  cases stage with
  | fresh =>
    rw [work, hplace]
    refine .enters ?_ (attempt_shared _ _) (attempt_isInvoked _ (by simp [hslot]))
    rw [State.isFresh, hslot]
    rfl
  | suspended invocation awaits signals =>
    obtain ⟨cue, rfl, haftermath⟩ := hplain _ hslot _ _ _ _ rfl rfl
    obtain ⟨queued, rung, interrupted⟩ := signals
    have hinvoked : s.isInvoked i = true := by
      rw [State.isInvoked, hslot]
      rfl
    cases queued with
    | false =>
      rw [work, hplace]
      exact .rests rfl rfl
    | true =>
      have hwork : work (script.setup policy) i s = _ := work_suspended hplace rfl haftermath
      obtain ⟨hshared, hleft⟩ | ⟨hshared, hleft⟩ :=
        endAttempt_invoked _ _ (by exact Option.isSome_iff_exists.2 ⟨_, hslot⟩) hwork
      · exact .leaves hinvoked hshared hleft
      · exact .returns hinvoked hshared hleft
  | finished f => exact absurd rfl (hstage f)

/-- A turn about a place adds at most one invocation, for the component at the place. -/
theorem handle_invoked (ht : t.place? = some i) (hplain : ∀ slot, s.slot? i = some slot → slot.IsPlain)
    (hc : ∀ p, s.places[i]? = some p → p.component = c) :
    Invoked policy i c s (handle (script.setup policy) t s) := by
  cases t with
  | work j =>
    obtain rfl : j = i := by simpa using ht
    exact work_invoked hplain hc
  | expire j n =>
    obtain rfl : j = i := by simpa using ht
    exact .rests (expire_invoked j n s).1 (expire_invoked j n s).2
  | ring j n alarm =>
    obtain rfl : j = i := by simpa using ht
    exact .rests (ring_invoked j n alarm s).1 (ring_invoked j n alarm s).2
  | cancel | watch | notice | coordinate => cases ht

/-- The invocations that a turn adds. -/
theorem Invoked.calls (h : Invoked policy i c s s') :
    s'.shared.calls = s.shared.calls ∨ s.isActive i = true ∧
      s'.shared.calls = s.shared.calls ++ [⟨c, policy.captureOutput, s.now⟩] := by
  rw [State.isActive_eq]
  cases h with
  | rests shared => exact .inl (by rw [shared])
  | enters fresh shared => exact .inr ⟨by simp [fresh], by rw [shared]; rfl⟩
  | leaves before shared => exact .inl (by rw [shared]; rfl)
  | returns before shared => exact .inr ⟨by simp [before], by rw [shared]; rfl⟩

theorem Invoked.count_le (h : Invoked policy i c s s') (d : String) :
    s.shared.count d ≤ s'.shared.count d := by
  obtain h | ⟨-, h⟩ := h.calls
  · rw [Rehearsal.Shared.count, Rehearsal.Shared.count, h]
  · rw [Rehearsal.Shared.count, Rehearsal.Shared.count, h, List.countP_append]
    exact Nat.le_add_right _ _

/-- A turn about a place tells of events about its component alone. -/
theorem handle_events (script : Script) (policy : Policy) (ht : t.place? = some i)
    (hc : ∀ p, s.places[i]? = some p → p.component = c) :
    ∃ new, Journal.events (handle (script.setup policy) t s).journal =
        new ++ Journal.events s.journal ∧ ∀ e ∈ new, e.2.component = c := by
  obtain ⟨new, hnew, -⟩ := (handle_turned (Script.setup_isQuiet script policy) ht s).journal
  refine ⟨Journal.events new, by rw [hnew, Journal.events_append], fun e he ↦ ?_⟩
  by_contra hne
  have hother : Undisturbed e.2.component s (handle (script.setup policy) t s) :=
    .handle ht fun p hp hcomponent ↦ hne (hcomponent.symm.trans (hc p hp))
  have hevents := hother.events
  rw [hnew, Journal.events_append, List.filter_append, List.append_left_eq_self,
    List.filter_eq_nil_iff] at hevents
  exact hevents e he (by simp)

end Testbed.Run
