import Testbed.Proofs.Run.Moves

/-!
# What the coordinator does

One statement for each operation of the coordinator, with its loops over the places resolved: how
the slots change, which turns are queued, and that nothing else changes apart from the journal.
-/

namespace Testbed.Run

variable {σ ι : Type} {setup : Setup σ ι}

/-! ## Skip events -/

/-- New entries of a journal, made at one instant, that tell of no progress but skips. -/
def Skips (now : Float) (new : Journal) : Prop :=
  ∀ e ∈ new, e.time = now ∧ ∀ event, e.note = .progress event → ∃ c, event = skipEvent c

theorem Skips.nil (now : Float) : Skips now [] := by
  simp [Skips]

theorem Skips.append {now : Float} {new new' : Journal} (h : Skips now new) (h' : Skips now new') :
    Skips now (new ++ new') :=
  fun e he ↦ (List.mem_append.1 he).elim (h e) (h' e)

theorem Skips.log (now : Float) (line : LogLine) : Skips now [⟨now, .log line⟩] := by
  simp [Skips]

theorem Skips.of_log {now : Float} {new : Journal}
    (h : ∀ e ∈ new, e.time = now ∧ ∃ line, e.note = .log line) : Skips now new := by
  intro e he
  obtain ⟨htime, line, hline⟩ := h e he
  exact ⟨htime, fun event hevent ↦ by cases hline.symm.trans hevent⟩

/-- Each place is told of by one event, in order. -/
theorem emitSkips_eq (quiet : setup.IsQuiet) (places : List Nat) (s : State σ ι) :
    ∃ new, emitSkips setup places s = ({ s with journal := new ++ s.journal }, none) ∧
      Skips s.now new ∧ Journal.events new = ((places.filterMap (s.places[·]?)).map fun p ↦
        (s.now, skipEvent p.component)).reverse := by
  induction places generalizing s with
  | nil => exact ⟨[], rfl, .nil s.now, rfl⟩
  | cons i places ih =>
    rw [emitSkips]
    split
    · next hp =>
      rw [List.filterMap_cons_none hp]
      exact ih s
    · next p hp =>
      rw [quiet.emit, List.filterMap_cons_some hp]
      obtain ⟨new, hnew, hskips, hevents⟩ :=
        ih ((s.note (.debug .run ("Progress: " ++ (skipEvent p.component).detail))).note
          (.progress (skipEvent p.component)))
      refine ⟨new ++ [⟨s.now, .progress (skipEvent p.component)⟩,
        ⟨s.now, .debug .run ("Progress: " ++ (skipEvent p.component).detail)⟩], ?_, ?_, ?_⟩
      · dsimp only
        rw [hnew]
        simp [State.note]
      · refine hskips.append ?_
        simp [Skips, Note.debug, State.note]
      · rw [Journal.events_append, hevents]
        simp [Journal.events, Note.debug, State.note]

/-! ## Ends of a run -/

/-- Why a component is skipped that was not started. -/
def skipReason (cancelled : Bool) : String :=
  if cancelled then skippedCancelled else skippedFailFast

theorem complete_eq (quiet : setup.IsQuiet) (s : State σ ι) :
    ∃ new, complete setup s = { s with
      places := s.places.map (Place.skip (skipReason s.cancelled))
      coordinator := .done none
      journal := new ++ s.journal } ∧ Skips s.now new := by
  obtain ⟨new, hnew, hskips, -⟩ := emitSkips_eq quiet (s.placesWith Slot.isPending) s
  rw [complete, hnew]
  exact ⟨_ :: new, rfl, (Skips.log s.now _).append hskips⟩

theorem concludeDrain_eq_none (quiet : setup.IsQuiet) (s : State σ ι) :
    ∃ new, concludeDrain setup none s = { s with
      places := s.places.map fun p ↦ p.drained.skip (skipReason s.cancelled)
      coordinator := .done none
      journal := new ++ s.journal } ∧ Skips s.now new := by
  obtain ⟨new, hnew, hskips, -⟩ :=
    emitSkips_eq quiet (s.placesWith fun slot ↦ slot.isRunning && !slot.kept) s
  obtain ⟨new', hnew', hskips'⟩ := complete_eq quiet
    { s with journal := new ++ s.journal, places := s.places.map Place.drained }
  refine ⟨new' ++ new, ?_, hskips'.append hskips⟩
  unfold concludeDrain
  rw [hnew]
  dsimp only at hnew' ⊢
  rw [hnew', List.map_map, List.append_assoc]
  rfl

theorem concludeDrain_eq_some (quiet : setup.IsQuiet) (abort : Abort) (s : State σ ι) :
    ∃ new, concludeDrain setup (some abort) s = { s with
      coordinator := .done (some abort)
      journal := new ++ s.journal } ∧ Skips s.now new := by
  obtain ⟨new, hnew, hskips, -⟩ :=
    emitSkips_eq quiet (s.placesWith fun slot ↦ slot.isRunning && !slot.kept) s
  refine ⟨new, ?_, hskips⟩
  unfold concludeDrain
  rw [hnew]
  rfl

/-- A slot that is skipped if it is pending. -/
def Slot.skip (component reason : String) : Slot ι → Slot ι
  | .pending => .settled (skipped component reason)
  | slot => slot

theorem Place.skip_eq (reason : String) (p : Place ι) :
    p.skip reason = { p with slot := p.slot.skip p.component reason } := by
  rcases p with ⟨_, _ | _ | _⟩ <;> rfl

/-- A slot whose work was drained. -/
def Slot.drained (component : String) : Slot ι → Slot ι
  | .running { stage := .finished (.outcome o), .. } => .settled o
  | .running _ => .settled (skipped component interruptedCancelled)
  | slot => slot

theorem Place.drained_eq (p : Place ι) :
    p.drained = { p with slot := p.slot.drained p.component } := by
  rcases p with ⟨_, _ | ⟨_, _, _, _, _ | _ | _ | _ | _⟩ | _⟩ <;> rfl

/-! ## Settling -/

/-- A slot whose work is settled, if it has ended in an outcome. -/
def Slot.settle (slot : Slot ι) : Slot ι :=
  match slot.finish? with
  | some (.outcome o) => .settled o
  | _ => slot

/-- A place whose ended work is settled. -/
def Place.settled (p : Place ι) : Place ι :=
  { p with slot := p.slot.settle }

/-- The work at a place ended in an outcome that halts the run. -/
def Place.halts (p : Place ι) : Bool :=
  match p.slot.finish? with
  | some (.outcome o) => halting o.status
  | _ => false

theorem Slot.isActive_settle (slot : Slot ι) : slot.settle.isActive = slot.isActive := by
  rcases slot with _ | ⟨_, _, _, _, _ | _ | _ | _ | _⟩ | _ <;> rfl

theorem Slot.isFresh_settle (slot : Slot ι) : slot.settle.isFresh = slot.isFresh := by
  rcases slot with _ | ⟨_, _, _, _, _ | _ | _ | _ | _⟩ | _ <;> rfl

theorem Place.settled_of_some {p : Place ι} {o : Outcome} (h : p.slot.finish? = some (.outcome o)) :
    p.settled = { p with slot := .settled o } := by
  rw [settled, Slot.settle, h]

theorem Place.settled_of_none {p : Place ι} (h : p.slot.finish? = none) : p.settled = p := by
  rw [settled, Slot.settle, h]

namespace State

variable (failFast halted : Bool) (places : List (Place ι))

/-- Settling works through the places up to some point, and to the end unless the run is aborted. -/
theorem settle_places : ∃ k ≤ places.length, (settle failFast halted places).places =
    (places.take k).map Place.settled ++ places.drop k ∧
      ((settle failFast halted places).abort = none → k = places.length) := by
  induction places generalizing halted with
  | nil => exact ⟨0, le_rfl, rfl, fun _ ↦ rfl⟩
  | cons p places ih =>
    rw [settle]
    split
    · next h =>
      obtain ⟨k, hle, hk, hlen⟩ := ih halted
      exact ⟨k + 1, Nat.succ_le_succ hle, by simp [hk, Place.settled_of_none h],
        fun ha ↦ by simp [hlen ha]⟩
    · next o h =>
      obtain ⟨k, hle, hk, hlen⟩ := ih (halted || (failFast && halting o.status))
      exact ⟨k + 1, Nat.succ_le_succ hle, by simp [hk, Place.settled_of_some h],
        fun ha ↦ by simp [hlen ha]⟩
    · exact ⟨0, Nat.zero_le _, rfl, by simp⟩
    · exact ⟨0, Nat.zero_le _, rfl, by simp⟩

theorem settle_getElem? : ∃ k, (∀ i, (settle failFast halted places).places[i]? =
    if i < k then places[i]?.map Place.settled else places[i]?) ∧
      ((settle failFast halted places).abort = none → k = places.length) := by
  obtain ⟨k, hle, hk, hlen⟩ := settle_places failFast halted places
  refine ⟨k, fun i ↦ ?_, hlen⟩
  rw [hk, List.getElem?_append, List.length_map, List.length_take]
  rw [Nat.min_eq_left hle]
  by_cases hi : i < k
  · rw [if_pos hi, if_pos hi, List.getElem?_map, List.getElem?_take_of_lt hi]
  · rw [if_neg hi, if_neg hi, List.getElem?_drop, Nat.add_sub_of_le (Nat.le_of_not_lt hi)]

/-- What aborts the settling stays where it is. -/
theorem settle_running (h : (settle failFast halted places).abort ≠ none) :
    ∃ p ∈ (settle failFast halted places).places, p.slot.isRunning = true := by
  induction places generalizing halted with
  | nil => exact absurd rfl h
  | cons p places ih =>
    have hrunning {f : Finish} (hf : p.slot.finish? = some f) : p.slot.isRunning = true := by
      simp [Slot.isRunning_eq, hf]
    rw [settle] at h ⊢
    split at h
    · obtain ⟨q, hq, hrun⟩ := ih halted h
      exact ⟨q, by simp [*], hrun⟩
    · obtain ⟨q, hq, hrun⟩ := ih _ h
      exact ⟨q, by simp [*], hrun⟩
    · next hf => exact ⟨p, by simp [*], hrunning hf⟩
    · next hf => exact ⟨p, by simp [*], hrunning hf⟩

/-- All but work that ended in an outcome aborts the run. -/
theorem settle_abort : (settle failFast halted places).abort = none ↔
    ∀ p ∈ places, ∀ f, p.slot.finish? = some f → ∃ o, f = .outcome o := by
  induction places generalizing halted with
  | nil => simp [settle]
  | cons p places ih =>
    rw [settle]
    split
    · next h => simp [ih, h]
    · next h => simp [ih, h]
    · next h => simp [h]
    · next h => simp [h]

/-- The run is halted by the first place that halts it, if that is wanted. -/
theorem settle_halted (h : (settle failFast halted places).abort = none) :
    (settle failFast halted places).halted = (halted || (failFast && places.any Place.halts)) := by
  induction places generalizing halted with
  | nil => simp [settle]
  | cons p places ih =>
    rw [settle] at h ⊢
    split at h
    · next hf => simp [hf, ih halted h, Place.halts]
    · next o hf =>
      simp only [hf, ih _ h, Place.halts, List.any_cons]
      cases halted <;> cases failFast <;> simp
    · cases h
    · cases h

/-- A run that was halted stays so. -/
theorem settle_halted_true : (settle failFast true places).halted = true := by
  induction places with
  | nil => rfl
  | cons p places ih =>
    rw [settle]
    split
    · exact ih
    · simpa only [Bool.true_or] using ih
    · rfl
    · rfl

/-- Fail-fast makes no difference as long as nothing halts the run. -/
theorem settle_eq_of_not_halts (h : ∀ p ∈ places, p.halts = false) (halted : Bool) :
    settle true halted places = settle false halted places := by
  induction places generalizing halted with
  | nil => rfl
  | cons p places ih =>
    obtain ⟨hp, hplaces⟩ := List.forall_mem_cons.1 h
    rw [settle, settle]
    split
    · rw [ih hplaces]
    · next o ho =>
      rw [Place.halts, ho] at hp
      simp only [hp, Bool.and_false, Bool.or_false, ih hplaces]
    · rfl
    · rfl

theorem settle_notes : ∀ n ∈ (settle failFast halted places).notes, ∃ line, n = .log line := by
  induction places generalizing halted with
  | nil => simp [settle]
  | cons p places ih =>
    rw [settle]
    split
    · exact ih halted
    · intro n hn
      obtain hn | hn := List.mem_append.1 hn
      · split at hn
        · exact ⟨_, List.mem_singleton.1 hn⟩
        · cases hn
      · exact ih _ n hn
    · simp
    · simp

end State

/-! ## Loops over the places -/

theorem getElem?_foldl_modify {α : Type} (f : α → α) {places : List Nat} (nodup : places.Nodup)
    (l : List α) (j : Nat) :
    (places.foldl (fun l i ↦ l.modify i f) l)[j]? = if j ∈ places then l[j]?.map f else l[j]? := by
  induction places generalizing l with
  | nil => simp
  | cons i places ih =>
    obtain ⟨hi, nodup⟩ := List.nodup_cons.1 nodup
    rw [List.foldl_cons, ih nodup]
    by_cases hj : i = j
    · subst hj
      simp [hi]
    · simp [hj, Ne.symm hj]

theorem State.placesWith_nodup (s : State σ ι) (p : Slot ι → Bool) : (s.placesWith p).Nodup :=
  List.nodup_range.filter _

/-- A place whose first attempt is about to be made. -/
def Place.launched (now : Float) (p : Place ι) : Place ι :=
  { p with slot := .running { started := now } }

/-- The places that are launched if `free` are free. -/
def State.launchable (free : Nat) (s : State σ ι) : List Nat :=
  (s.placesWith Slot.isPending).take free

theorem launch_eq (free : Nat) (s : State σ ι) :
    launch free s = { s with
      places := (s.launchable free).foldl (fun l i ↦ l.modify i (Place.launched s.now)) s.places
      next := s.next ++ (s.launchable free).map .work } := by
  rw [launch, State.launchable]
  generalize (s.placesWith Slot.isPending).take free = places
  induction places generalizing s with
  | nil => simp
  | cons i places ih =>
    rw [List.foldl_cons, ih]
    simp only [State.enqueue, State.setWorker, State.setSlot, List.map_cons, List.append_assoc,
      List.cons_append, List.nil_append]
    rfl

theorem launch_places (free : Nat) (s : State σ ι) (j : Nat) :
    (launch free s).places[j]? =
      if j ∈ s.launchable free then s.places[j]?.map (Place.launched s.now) else s.places[j]? := by
  rw [launch_eq]
  exact getElem?_foldl_modify _ ((s.placesWith_nodup _).sublist (List.take_sublist _ _)) _ j

theorem launch_slot? (free : Nat) (s : State σ ι) (j : Nat) :
    (launch free s).slot? j =
      if j ∈ s.launchable free then some (.running { started := s.now }) else s.slot? j := by
  rw [State.slot?, launch_places]
  split
  · next hj =>
    obtain ⟨slot, hslot, -⟩ := State.mem_placesWith.1 (List.mem_of_mem_take hj)
    obtain ⟨c, hc⟩ := State.slot?_eq_some.1 hslot
    simp [hc, Place.launched]
  · rfl

theorem launch_turns (free : Nat) (s : State σ ι) :
    (launch free s).turns = s.turns ++ (s.launchable free).map .work := by
  rw [launch_eq, State.turns, State.turns, List.append_assoc]

theorem launch_components (free : Nat) (s : State σ ι) :
    (launch free s).places.map (·.component) = s.places.map (·.component) := by
  refine List.ext_getElem? fun i ↦ ?_
  rw [List.getElem?_map, List.getElem?_map, launch_places]
  split
  · rw [Option.map_map]
    rfl
  · rfl

/-- The state in which the free places are filled. -/
def State.filled (setup : Setup σ ι) (s : State σ ι) : State σ ι :=
  if s.halted || s.cancelled then s else launch (setup.policy.parallelism.toNat - s.runningCount) s

theorem filled_components (setup : Setup σ ι) (s : State σ ι) :
    (s.filled setup).places.map (·.component) = s.places.map (·.component) := by
  rw [State.filled]
  split
  · rfl
  · exact launch_components _ s

theorem fill_eq (setup : Setup σ ι) (s : State σ ι) :
    fill setup s =
      if (s.filled setup).runningCount = 0 then complete setup (s.filled setup)
      else { s.filled setup with
        epoch := (s.filled setup).epoch + 1
        coordinator := .waiting false } :=
  rfl

theorem fill_halted (quiet : setup.IsQuiet) (s : State σ ι) : (fill setup s).halted = s.halted := by
  have hfilled : (s.filled setup).halted = s.halted := by
    rw [State.filled]
    split
    · rfl
    · rw [launch_eq]
  rw [fill_eq]
  split
  · obtain ⟨new, heq, -⟩ := complete_eq quiet (s.filled setup)
    rw [heq]
    exact hfilled
  · exact hfilled

namespace Slot

/-- A slot whose work has been interrupted, if it waits. -/
def interrupted : Slot ι → Slot ι
  | .running w =>
    match w.stage with
    | .suspended invocation awaits signals =>
      .running { w with
        outstanding := w.outstanding + 1
        stage := .suspended invocation awaits { signals with queued := true, interrupted := true } }
    | _ => .running w
  | slot => slot

/-- Work that waits and has no turn queued. -/
def isIdle : Slot ι → Bool
  | .running { stage := .suspended _ _ { queued := false, .. }, .. } => true
  | _ => false

theorem isActive_interrupted (slot : Slot ι) : slot.interrupted.isActive = slot.isActive := by
  rcases slot with _ | ⟨_, _, _, _, _ | _ | _⟩ | _ <;> rfl

theorem isFresh_interrupted (slot : Slot ι) : slot.interrupted.isFresh = slot.isFresh := by
  rcases slot with _ | ⟨_, _, _, _, _ | _ | _⟩ | _ <;> rfl

theorem finish?_interrupted (slot : Slot ι) : slot.interrupted.finish? = slot.finish? := by
  rcases slot with _ | ⟨_, _, _, _, _ | _ | _⟩ | _ <;> rfl

end Slot

/-- A place whose work has been interrupted, if it waits. -/
def Place.interrupted (p : Place ι) : Place ι :=
  { p with slot := p.slot.interrupted }

theorem interrupt_eq (i : Nat) (s : State σ ι) :
    interrupt i s = { s with
      places := s.places.modify i Place.interrupted
      next := s.next ++ if (s.slot? i).any Slot.isIdle then [.work i] else [] } := by
  have hother (h : ∀ p, s.places[i]? = some p → p.slot.interrupted = p.slot) :
      s.places.modify i Place.interrupted = s.places := by
    refine List.ext_getElem? fun j ↦ ?_
    by_cases hj : i = j
    · subst hj
      cases hp : s.places[i]? with
      | none => simp [hp]
      | some p => simp [hp, Place.interrupted, h p hp]
    · simp [hj]
  unfold interrupt
  cases hslot : s.slot? i with
  | none =>
    rw [hother fun p hp ↦ by simp [State.slot?, hp] at hslot]
    simp [State.worker?, hslot]
  | some slot =>
    obtain ⟨c, hc⟩ := State.slot?_eq_some.1 hslot
    rcases slot with _ | ⟨started, attempt, outstanding, expired, _ | ⟨invocation, awaits, queued, rung, told⟩ | f⟩ | o
    all_goals simp only [State.worker?, hslot]
    case some.running.suspended =>
      have hplaces : s.places.modify i Place.interrupted = s.places.modify i fun p ↦ { p with
          slot := .running ⟨started, attempt, outstanding + 1, expired,
            .suspended invocation awaits ⟨true, rung, true⟩⟩ } := by
        refine List.ext_getElem? fun j ↦ ?_
        by_cases hj : i = j
        · subst hj
          simp [hc, Place.interrupted, Slot.interrupted]
        · simp [hj]
      rw [hplaces]
      cases queued <;> simp [Slot.isIdle, State.setWorker, State.setSlot, State.enqueue]
    all_goals
      rw [hother fun p hp ↦ by
        obtain rfl : _ = p := Option.some_inj.1 (hc.symm.trans hp)
        rfl]
      simp [Slot.isIdle]

theorem interruptAll_eq {places : List Nat} (nodup : places.Nodup) (s : State σ ι) :
    places.foldl (fun s i ↦ interrupt i s) s = { s with
      places := places.foldl (fun l i ↦ l.modify i Place.interrupted) s.places
      next := s.next ++ (places.filter fun i ↦ (s.slot? i).any Slot.isIdle).map .work } := by
  induction places generalizing s with
  | nil => simp
  | cons i places ih =>
    obtain ⟨hi, nodup⟩ := List.nodup_cons.1 nodup
    have hidle (t : State σ ι) (ht : t.places = s.places.modify i Place.interrupted) :
        (places.filter fun j ↦ (t.slot? j).any Slot.isIdle) =
          places.filter fun j ↦ (s.slot? j).any Slot.isIdle := by
      refine List.filter_congr fun j hj ↦ ?_
      have hij : i ≠ j := fun h ↦ hi (h ▸ hj)
      simp [State.slot?, ht, hij]
    rw [List.foldl_cons, ih nodup, hidle (interrupt i s) (by rw [interrupt_eq]), interrupt_eq]
    cases h : (s.slot? i).any Slot.isIdle <;> simp [h]

theorem State.placesWith_congr {s t : State σ ι} {p q : Slot ι → Bool}
    (hlen : t.places.length = s.places.length)
    (h : ∀ i < s.places.length, (t.slot? i).any p = (s.slot? i).any q) :
    t.placesWith p = s.placesWith q := by
  rw [placesWith, placesWith, hlen]
  exact List.filter_congr fun i hi ↦ h i (List.mem_range.1 hi)

theorem enqueueAll_eq (places : List Nat) (s : State σ ι) :
    places.foldl (fun s _ ↦ s.enqueue (.notice s.epoch)) s =
      { s with next := s.next ++ List.replicate places.length (.notice s.epoch) } := by
  induction places generalizing s with
  | nil => simp
  | cons i places ih =>
    rw [List.foldl_cons, ih]
    simp [State.enqueue, List.replicate_succ]

theorem State.length_placesWith (s : State σ ι) (p : Slot ι → Bool) :
    (s.placesWith p).length = s.places.countP (p ·.slot) := by
  have hcount (l : List (Place ι)) :
      (List.range l.length).countP (fun i ↦ (l[i]?.map (·.slot)).any p) = l.countP (p ·.slot) := by
    induction l using List.reverseRecOn with
    | nil => rfl
    | append_singleton l a ih =>
      rw [List.length_append, List.length_singleton, List.range_succ, List.countP_append,
        List.countP_append, ← ih]
      congr 1
      · refine List.countP_congr fun i hi ↦ ?_
        rw [List.getElem?_append_left (List.mem_range.1 hi)]
      · simp
  rw [placesWith, ← List.countP_eq_length_filter]
  exact hcount s.places

theorem countP_isRunning (places : List (Place ι)) :
    places.countP (·.slot.isRunning) =
      places.countP (·.slot.isActive) + places.countP (·.slot.finish?.isSome) := by
  induction places with
  | nil => rfl
  | cons p places ih =>
    have hp : (if p.slot.isRunning = true then 1 else 0) =
        (if p.slot.isActive = true then 1 else 0) + if p.slot.finish?.isSome = true then 1 else 0 := by
      rcases p with ⟨_, _ | ⟨_, _, _, _, _ | _ | _⟩ | _⟩ <;> rfl
    simp only [List.countP_cons, ih, hp]
    omega

/-- All work that waits is interrupted, and what has ended already is noticed anew. -/
theorem drain_eq (cause : Option Abort) (s : State σ ι) :
    drain cause s = { s with
      places := s.places.map Place.interrupted
      epoch := s.epoch + 1
      coordinator := .draining (s.placesWith Slot.isRunning).length cause
      next := s.next ++ (s.placesWith Slot.isIdle).map .work ++
        List.replicate (s.placesWith fun slot ↦ slot.finish?.isSome).length
          (.notice (s.epoch + 1)) } := by
  have hnodup := s.placesWith_nodup Slot.isRunning
  have hplaces : (s.placesWith Slot.isRunning).foldl (fun l i ↦ l.modify i Place.interrupted)
      s.places = s.places.map Place.interrupted := by
    refine List.ext_getElem? fun j ↦ ?_
    rw [getElem?_foldl_modify _ hnodup, List.getElem?_map]
    split
    · rfl
    · next hj =>
      cases hp : s.places[j]? with
      | none => rfl
      | some p =>
        have hrun : p.slot.isRunning = false := by
          by_contra h
          exact hj (State.mem_placesWith.2 ⟨p.slot, by simp [State.slot?, hp], by simpa using h⟩)
        rcases p with ⟨_, _ | _ | _⟩ <;> simp_all [Slot.isRunning, Place.interrupted, Slot.interrupted]
  have hidle : ((s.placesWith Slot.isRunning).filter fun i ↦ (s.slot? i).any Slot.isIdle) =
      s.placesWith Slot.isIdle := by
    rw [State.placesWith, State.placesWith, List.filter_filter]
    refine List.filter_congr fun i _ ↦ ?_
    rcases s.slot? i with _ | _ | ⟨_, _, _, _, _ | ⟨_, _, _ | _, _, _⟩ | _⟩ | _ <;> rfl
  have hfinished (t : State σ ι) (ht : t.places = s.places.map Place.interrupted) :
      (t.placesWith fun slot ↦ slot.finish?.isSome) = s.placesWith fun slot ↦ slot.finish?.isSome := by
    refine State.placesWith_congr (by simp [ht]) fun i _ ↦ ?_
    rw [State.slot?, ht, List.getElem?_map, Option.map_map, State.slot?]
    cases s.places[i]? <;> simp [Place.interrupted, Slot.finish?_interrupted]
  rw [drain]
  simp only [interruptAll_eq hnodup, enqueueAll_eq, hplaces]
  rw [hfinished _ rfl, List.append_assoc, List.append_assoc, ← hidle]
  rfl

/-! ## Collecting -/

/-- The state in which all ended work is settled, as far as the run is not aborted. -/
def State.collected (setup : Setup σ ι) (s : State σ ι) : State σ ι :=
  { s with
    places := (State.settle setup.policy.failFast s.halted s.places).places
    halted := (State.settle setup.policy.failFast s.halted s.places).halted }.noteAll
      (State.settle setup.policy.failFast s.halted s.places).notes

/-- What aborts the run when the ended work is settled. -/
def State.abort? (setup : Setup σ ι) (s : State σ ι) : Option Abort :=
  (State.settle setup.policy.failFast s.halted s.places).abort

/-- The log line about a cancelled run. -/
def State.cancelNote (s : State σ ι) : Note :=
  .warning .run ("Run cancelled, stopping " ++ toString s.runningCount ++ " component(s)")

theorem collect_eq (setup : Setup σ ι) (s : State σ ι) :
    collect setup s =
      match s.abort? setup with
      | some abort => drain (some abort) (s.collected setup)
      | none =>
        if s.cancelled then
          if (s.collected setup).runningCount = 0 then
            concludeDrain setup none ((s.collected setup).note (s.collected setup).cancelNote)
          else drain none ((s.collected setup).note (s.collected setup).cancelNote)
        else fill setup (s.collected setup) := by
  have hcancelled : (s.collected setup).cancelled = s.cancelled := by
    rw [State.collected, State.noteAll_eq]
  rw [← hcancelled]
  rfl

theorem State.collected_eq (setup : Setup σ ι) (s : State σ ι) :
    ∃ new, s.collected setup = { s with
      places := (State.settle setup.policy.failFast s.halted s.places).places
      halted := (State.settle setup.policy.failFast s.halted s.places).halted
      journal := new ++ s.journal } ∧ ∀ e ∈ new, e.time = s.now ∧ ∃ line, e.note = .log line := by
  rw [collected, noteAll_eq]
  refine ⟨_, rfl, fun e he ↦ ?_⟩
  obtain ⟨n, hn, rfl⟩ := List.mem_map.1 (List.mem_reverse.1 he)
  exact ⟨rfl, settle_notes _ _ _ n hn⟩

theorem State.collected_slot? (setup : Setup σ ι) (s : State σ ι) :
    ∃ k, (∀ i, (s.collected setup).slot? i =
      if i < k then (s.places[i]?.map Place.settled).map (·.slot) else s.slot? i) ∧
        (s.abort? setup = none → k = s.places.length) := by
  obtain ⟨k, hk, hlen⟩ := settle_getElem? setup.policy.failFast s.halted s.places
  obtain ⟨new, hnew, -⟩ := s.collected_eq setup
  refine ⟨k, fun i ↦ ?_, hlen⟩
  rw [slot?, hnew, hk]
  split <;> rfl

/-- The outcome of a place that is settled. -/
def State.Settles (s : State σ ι) (i : Nat) (o : Outcome) : Prop :=
  s.slot? i = some (.settled o)

section Collected

variable {s : State σ ι}

theorem collected_components (setup : Setup σ ι) (s : State σ ι) :
    (s.collected setup).places.map (·.component) = s.places.map (·.component) := by
  obtain ⟨k, -, hk, -⟩ := State.settle_places setup.policy.failFast s.halted s.places
  obtain ⟨new, hnew, -⟩ := s.collected_eq setup
  rw [hnew]
  simp only [hk, List.map_append, List.map_map]
  have hsettled : (fun p : Place ι ↦ p.component) ∘ Place.settled = fun p ↦ p.component := rfl
  rw [hsettled, ← List.map_append, List.take_append_drop]

theorem collected_slot (h : s.abort? setup = none)
    (i : Nat) : (s.collected setup).slot? i = (s.slot? i).map Slot.settle := by
  obtain ⟨k, hk, hlen⟩ := s.collected_slot? setup
  obtain rfl := hlen h
  rw [hk]
  split
  · rw [State.slot?, Option.map_map, Option.map_map]
    rfl
  · next hi => simp [State.slot?, List.getElem?_eq_none (Nat.le_of_not_lt hi)]

/-- What is settled after settling was so before, or had ended. -/
theorem collected_settles (h : s.abort? setup = none)
    {i : Nat} {o : Outcome} : (s.collected setup).Settles i o ↔
      s.Settles i o ∨ s.finish? i = some (.outcome o) := by
  rw [State.Settles, collected_slot h, State.Settles, State.finish?]
  rcases s.slot? i with _ | _ | ⟨_, _, _, _, _ | _ | _ | _ | _⟩ | _ <;> simp [Slot.settle, Slot.finish?]

theorem collected_halted (h : s.abort? setup = none) :
    (s.collected setup).halted = true ↔ s.halted = true ∨ setup.policy.failFast = true ∧
      ∃ i o, s.finish? i = some (.outcome o) ∧ halting o.status = true := by
  obtain ⟨new, hnew, -⟩ := s.collected_eq setup
  rw [hnew]
  simp only [State.settle_halted _ _ _ h, Bool.or_eq_true, Bool.and_eq_true, List.any_eq_true]
  refine or_congr_right (and_congr_right fun _ ↦ ⟨?_, ?_⟩)
  · rintro ⟨place, hplace, hhalts⟩
    obtain ⟨i, hi⟩ := List.mem_iff_getElem?.1 hplace
    rw [Place.halts] at hhalts
    split at hhalts
    · next o ho => exact ⟨i, o, by simp [State.finish?, State.slot?, hi, ho], hhalts⟩
    · cases hhalts
  · rintro ⟨i, o, hi, ho⟩
    obtain ⟨slot, hslot, hf⟩ := Option.bind_eq_some_iff.1 hi
    obtain ⟨c, hc⟩ := State.slot?_eq_some.1 hslot
    exact ⟨_, List.mem_of_getElem? hc, by simp [Place.halts, hf, ho]⟩

end Collected

/-! ## Beginnings -/

/-- A run before its first components are started. -/
def State.opening (setup : Setup σ ι) (cancellation : Cancellation) (now : Float)
    (shared : σ) (components : List String) : State σ ι where
  now := now
  timers := cancellation.delays.map fun delay ↦ ⟨now + delay, .cancel⟩
  queue := []
  next := [.watch]
  shared := shared
  places := components.map fun c ↦ { component := c }
  halted := false
  cancelled := cancellation matches .before
  watching := false
  coordinator := .waiting false
  epoch := 0
  journal := [⟨now, .info .run ("Running tests for " ++ toString components.length ++
    " component(s) (parallelism=" ++ toString setup.policy.parallelism ++ ", fail_fast=" ++
    (Data.Value.flag setup.policy.failFast).shown ++ ")")⟩]

theorem begin_eq (setup : Setup σ ι) (cancellation : Cancellation) (now : Float)
    (shared : σ) (components : List String) :
    begin setup cancellation now shared components =
      fill setup (.opening setup cancellation now shared components) :=
  rfl

end Testbed.Run
