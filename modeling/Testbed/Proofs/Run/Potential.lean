import Testbed.Proofs.Clock.Earliest
import Testbed.Proofs.Run.Control
import Testbed.Proofs.Run.Slots

/-!
# The potential of a run

Every turn costs something and pays for the turns and timers that it adds with the work that it gets
done; the potential sums up what is still to be paid for.  It pays for all that a run can do whose
invocations keep within their means.  Each step lowers it, unless nothing is left to happen.
-/

namespace Testbed

/-- A reply whose alarms and turns, and those that may follow, are within the means at hand. -/
def Reply.Affords {ι ρ : Type} (budget : ι → Nat) (means : Nat) (reply : Reply ι ρ) : Prop :=
  match reply.next with
  | .ends _ => True
  | .yields invocation => budget invocation + 1 ≤ means
  | .waits invocation _ alarms => budget invocation + alarms.length ≤ means

theorem Reply.Affords.mono {ι ρ : Type} {budget : ι → Nat} {means means' : Nat} {reply : Reply ι ρ}
    (h : reply.Affords budget means) (hle : means ≤ means') : reply.Affords budget means' := by
  obtain ⟨notes, next⟩ := reply
  cases next with
  | ends => trivial
  | yields | waits => exact le_trans h hle

/-- A runner whose invocations keep within the means that it states; `budget` is what is left of them
to an invocation that waits. -/
structure Runner.Frugal {σ ι : Type} (runner : Runner σ ι) (budget : ι → Nat) : Prop where
  start (shared : σ) (now : Float) (component : String) (capture : Bool) :
    (runner.start shared now component capture).2.Affords budget runner.turns
  resume (shared : σ) (now : Float) (invocation : ι) (wake : Wake) :
    (runner.resume shared now invocation wake).2.Affords budget (budget invocation)

namespace Run

variable {σ ι : Type} {setup : Setup σ ι} {budget : ι → Nat} {s s' : State σ ι} {t : Turn} {i : Nat}
  {c : String} {w w' : Worker ι} {old : Slot ι}

/-- What a turn costs; the look for the cancellation, a limit and an alarm may add a turn. -/
def Turn.cost : Turn → Nat
  | .watch | .expire .. | .ring .. => 3
  | _ => 1

@[simp] theorem Turn.cost_work (i : Nat) : (Turn.work i).cost = 1 := rfl
@[simp] theorem Turn.cost_expire (i n : Nat) : (Turn.expire i n).cost = 3 := rfl
@[simp] theorem Turn.cost_ring (i n a : Nat) : (Turn.ring i n a).cost = 3 := rfl
@[simp] theorem Turn.cost_cancel : Turn.cancel.cost = 1 := rfl
@[simp] theorem Turn.cost_watch : Turn.watch.cost = 3 := rfl
@[simp] theorem Turn.cost_notice (e : Nat) : (Turn.notice e).cost = 1 := rfl
@[simp] theorem Turn.cost_coordinate : Turn.coordinate.cost = 1 := rfl

/-- What an attempt costs: its limit, and all that its invocation has the means for. -/
def Setup.attemptCost (setup : Setup σ ι) : Nat :=
  4 * setup.runner.turns + 4

/-- What the work on a component still costs, its attempts included. -/
def Slot.weight (setup : Setup σ ι) (budget : ι → Nat) : Slot ι → Nat
  | .pending => (attemptsLeft setup.policy 1 + 1) * setup.attemptCost + 8
  | .running w =>
    match w.stage with
    | .fresh => (attemptsLeft setup.policy w.attempt + 1) * setup.attemptCost + 6
    | .suspended invocation _ _ =>
      attemptsLeft setup.policy w.attempt * setup.attemptCost + 4 * budget invocation + 6
    | .finished _ => 4
  | .settled _ => 0

/-- What the coordinator still costs.  As long as it waits it may have to interrupt each of the
places. -/
def Coordinator.weight (places : Nat) : Coordinator → Nat
  | .waiting false => 2 * places + 4
  | .waiting true => 2 * places + 2
  | .draining left _ => if left = 0 then 0 else 2
  | .done _ => 0

/-- What a cancellation that may still come costs. -/
def cancelWeight (cancelled : Bool) : Nat :=
  bif cancelled then 0 else 4

theorem cancelWeight_le (cancelled : Bool) : cancelWeight cancelled ≤ 4 := by
  cases cancelled <;> simp [cancelWeight]

namespace State

def potential (setup : Setup σ ι) (budget : ι → Nat) (s : State σ ι) : Nat :=
  (s.queue.map Turn.cost).sum + (s.next.map fun t ↦ t.cost + 1).sum +
    (s.timers.map fun t ↦ t.turn.cost + 1).sum + (s.places.map (·.slot.weight setup budget)).sum +
      s.coordinator.weight s.places.length + cancelWeight s.cancelled

theorem potential_remarked (h : Remarked s s') : s'.potential setup budget = s.potential setup budget := by
  obtain ⟨new, rfl, -⟩ := h
  rfl

theorem potential_enqueue (s : State σ ι) (t : Turn) :
    (s.enqueue t).potential setup budget = s.potential setup budget + t.cost + 1 := by
  simp only [potential, enqueue, List.map_append, List.sum_append, List.map_cons, List.map_nil,
    List.sum_singleton]
  omega

theorem potential_set (s : State σ ι) (delay : Float) (t : Turn) :
    (s.set delay t).potential setup budget = s.potential setup budget + t.cost + 1 := by
  simp only [potential, set, List.map_append, List.sum_append, List.map_cons, List.map_nil,
    List.sum_singleton]
  omega

theorem potential_timers {timers : List Timer} (h : timers.Sublist s.timers) :
    { s with timers := timers }.potential setup budget ≤ s.potential setup budget := by
  have hsum := (h.map fun t ↦ t.turn.cost + 1).sum_le_sum fun _ _ ↦ Nat.zero_le _
  simp only [potential]
  omega

theorem potential_setSlot (setup : Setup σ ι) (budget : ι → Nat) (h : s.slot? i = some old)
    (slot : Slot ι) :
    (s.setSlot i slot).potential setup budget + old.weight setup budget =
      s.potential setup budget + slot.weight setup budget := by
  obtain ⟨c, hc⟩ := slot?_eq_some.1 h
  have hsum := sum_map_modify hc (fun p ↦ { p with slot := slot }) fun p ↦ p.slot.weight setup budget
  simp only [potential, setSlot, List.length_modify] at hsum ⊢
  omega

end State

/-! ## Attempts -/

theorem potential_finish (h : s.slot? i = some old) (w : Worker ι) (f : Finish) :
    (finish i w f s).potential setup budget + old.weight setup budget =
      s.potential setup budget + 6 := by
  have hset := State.potential_setSlot setup budget h (.running { w with stage := .finished f })
  rw [finish, State.potential_enqueue, State.setWorker]
  simp only [Slot.weight, Turn.cost_notice] at hset ⊢
  omega

theorem potential_attempting (setup : Setup σ ι) (budget : ι → Nat) (s : State σ ι) (i : Nat)
    (c : String) (w : Worker ι) :
    (s.attempting setup i c w).potential setup budget ≤ s.potential setup budget + 4 := by
  change (setLimit setup i w.attempt s).potential setup budget ≤ _
  obtain h | h | ⟨limit, h⟩ := setLimit_cases setup i w.attempt s <;> rw [h]
  · omega
  · rw [State.potential_enqueue, Turn.cost_expire]
  · rw [State.potential_set, Turn.cost_expire]

theorem potential_suspended (setup : Setup σ ι) (budget : ι → Nat) (hslot : s.slot? i = some old)
    (w : Worker ι) (invocation : ι) (awaits : List Nat) (signals : Signals) :
    (s.setWorker i { w with stage := .suspended invocation awaits signals }).potential setup budget +
        old.weight setup budget = s.potential setup budget +
      (attemptsLeft setup.policy w.attempt * setup.attemptCost + 4 * budget invocation + 6) :=
  State.potential_setSlot setup budget hslot _

theorem potential_setAll (setup : Setup σ ι) (budget : ι → Nat) (i n : Nat)
    (alarms : List (Nat × Float)) (s : State σ ι) :
    (alarms.foldl (fun s (alarm, delay) ↦ s.set delay (.ring i n alarm)) s).potential setup budget =
      s.potential setup budget + 4 * alarms.length := by
  induction alarms generalizing s with
  | nil => rfl
  | cons a alarms ih =>
    rw [List.foldl_cons, ih, State.potential_set, Turn.cost_ring, List.length_cons]
    omega

/-- An attempt pays for itself, if all replies are paid for. -/
theorem potential_attempt_of (quiet : setup.IsQuiet) (frugal : setup.runner.Frugal budget) {left : Nat}
    (hslot : s.slot? i = some old) (hreplied : ∀ reply (s : State σ ι) means, s.slot? i = some old →
      reply.Affords budget means →
        (replied setup i c left w reply s).potential setup budget + old.weight setup budget ≤
          s.potential setup budget + (left * setup.attemptCost + 4 * means + 6)) :
    (attempt setup i c left w s).potential setup budget + old.weight setup budget ≤
      s.potential setup budget + ((left + 1) * setup.attemptCost + 6) := by
  obtain ⟨s₁, hremarked, heq⟩ := attempt_eq_replied quiet left w s (i := i) (c := c)
  obtain ⟨-, -, hplaces, -⟩ := setLimit_frame setup i w.attempt s₁
  have hslot₁ : (s₁.attempting setup i c w).slot? i = some old := by
    refine Eq.trans ?_ ((hremarked.slot? i).trans hslot)
    rw [State.slot?, State.slot?, State.attempting, hplaces]
  have hpaid := hreplied _ _ _ hslot₁
    (frugal.start s₁.shared s₁.now c setup.policy.captureOutput)
  have hattempting := potential_attempting setup budget s₁ i c w
  rw [State.potential_remarked hremarked] at hattempting
  rw [heq, Nat.succ_mul, Setup.attemptCost]
  rw [Setup.attemptCost] at hpaid
  omega

/-- A reply is paid for with what follows it, further attempts included: by induction on the attempts
left. -/
theorem potential_replied (quiet : setup.IsQuiet) (frugal : setup.runner.Frugal budget) {left : Nat}
    (hleft : attemptsLeft setup.policy w.attempt = left) {reply : Reply ι Ending} {means : Nat}
    (hslot : s.slot? i = some old) (hreply : reply.Affords budget means) :
    (replied setup i c left w reply s).potential setup budget + old.weight setup budget ≤
      s.potential setup budget + (left * setup.attemptCost + 4 * means + 6) := by
  induction left using Nat.strong_induction_on generalizing w reply s means with
  | _ left ih =>
    have hdropped (timers : List Timer) (h : timers.Sublist (s.noteAll reply.notes).timers) :
        { s.noteAll reply.notes with timers := timers }.slot? i = some old ∧
          { s.noteAll reply.notes with timers := timers }.potential setup budget ≤
            s.potential setup budget := by
      rw [State.noteAll_eq] at h ⊢
      exact ⟨hslot, State.potential_timers h⟩
    rw [replied]
    rw [Reply.Affords] at hreply
    cases hnext : reply.next with
    | yields invocation =>
      rw [hnext] at hreply
      obtain ⟨hslot, hpotential⟩ := hdropped (dropTimers i [] (s.noteAll reply.notes).timers)
        List.filter_sublist
      have hset := potential_suspended setup budget hslot w invocation [] { queued := true }
      rw [apply, hnext]
      dsimp only at hreply hpotential hset ⊢
      rw [State.potential_enqueue, Turn.cost_work, ← hleft]
      omega
    | waits invocation keep alarms =>
      rw [hnext] at hreply
      obtain ⟨hslot, hpotential⟩ := hdropped (dropTimers i keep (s.noteAll reply.notes).timers)
        List.filter_sublist
      have hset := potential_setAll setup budget i w.attempt alarms
        { s.noteAll reply.notes with timers := dropTimers i keep (s.noteAll reply.notes).timers }
      have hsuspended := potential_suspended setup budget
        ((setAll_slot? i w.attempt alarms _ i).trans hslot) w invocation (keep ++ alarms.map (·.1)) {}
      rw [apply, hnext]
      dsimp only at hreply hpotential hset hsuspended ⊢
      rw [← hleft]
      omega
    | ends ending =>
      obtain ⟨hslot, hpotential⟩ := hdropped (dropAllTimers i (s.noteAll reply.notes).timers)
        List.filter_sublist
      rw [apply, hnext]
      dsimp only
      obtain ⟨s₁, hremarked, hends⟩ := endAttempt_endsIn quiet left w ending
        { s.noteAll reply.notes with timers := dropAllTimers i (s.noteAll reply.notes).timers }
        (i := i) (c := c)
      rw [← State.potential_remarked hremarked] at hpotential
      rw [← hremarked.slot?] at hslot
      generalize endAttempt setup i c (further setup i c left) w ending _ = s' at hends
      cases hends with
      | interrupted | concludes =>
        rw [potential_finish hslot]
        omega
      | @again _ l _ _ more =>
        subst more
        have hattempt := potential_attempt_of quiet frugal hslot fun _ _ _ hslot hreply ↦
          ih l (Nat.lt_succ_self l) (attemptsLeft_again hleft) hslot hreply
        exact hattempt.trans (by omega)

/-! ## Turns -/

theorem potential_work (quiet : setup.IsQuiet) (frugal : setup.runner.Frugal budget) (i : Nat)
    (s : State σ ι) : (work setup i s).potential setup budget ≤ s.potential setup budget := by
  have hworks := work_works setup i s
  generalize work setup i s = s' at hworks
  cases hworks with
  | idle => exact le_rfl
  | @starts c w place stage =>
    have hslot : s.slot? i = some (.running w) := State.slot?_eq_some.2 ⟨c, place⟩
    have hattempt := potential_attempt_of (c := c) (w := w) quiet frugal hslot fun _ _ _ ↦
      potential_replied quiet frugal rfl
    simp only [Slot.weight, stage] at hattempt
    omega
  | @resumes c w invocation awaits rung interrupted place stage =>
    have hslot : s.slot? i = some (.running w) := State.slot?_eq_some.2 ⟨c, place⟩
    have hreplied := potential_replied (c := c) (w := w) (s := { s with
      shared := (setup.runner.resume s.shared s.now invocation ⟨rung, interrupted⟩).1 }) quiet frugal rfl
      hslot (frugal.resume s.shared s.now invocation ⟨rung, interrupted⟩)
    simp only [Slot.weight, stage] at hreplied
    change _ ≤ s.potential setup budget + _ at hreplied
    omega

/-- Work that is told something costs what it did before, but has its turn queued. -/
theorem potential_told {invocation : ι} {awaits : List Nat} {signals signals' : Signals}
    (h : s.worker? i = some w) (hstage : w.stage = .suspended invocation awaits signals)
    (hstage' : w'.stage = .suspended invocation awaits signals') (hattempt : w'.attempt = w.attempt) :
    (if signals.queued then s.setWorker i w' else (s.setWorker i w').enqueue (.work i)).potential setup
      budget ≤ s.potential setup budget + 2 := by
  have hset := State.potential_setSlot setup budget (State.worker?_eq_some.1 h) (.running w')
  simp only [Slot.weight, hstage, hstage', hattempt] at hset
  split
  · rw [State.setWorker]
    omega
  · rw [State.potential_enqueue, State.setWorker, Turn.cost_work]
    omega

theorem potential_interrupt (i : Nat) (s : State σ ι) :
    (interrupt i s).potential setup budget ≤ s.potential setup budget + 2 := by
  unfold interrupt
  split
  · next hw =>
    split
    · next hstage => exact potential_told hw hstage rfl rfl
    · omega
  · omega

theorem potential_expire (i n : Nat) (s : State σ ι) :
    (expire i n s).potential setup budget ≤ s.potential setup budget + 2 := by
  unfold expire
  split
  · next w hw =>
    split
    · next hstage =>
      split
      · refine (potential_interrupt i _).trans ?_
        have hset := State.potential_setSlot setup budget (State.worker?_eq_some.1 hw)
          (.running { w with expired := true })
        simp only [Slot.weight, hstage, State.setWorker] at hset ⊢
        omega
      · omega
    · omega
  · omega

theorem potential_ring (i n alarm : Nat) (s : State σ ι) :
    (ring i n alarm s).potential setup budget ≤ s.potential setup budget + 2 := by
  unfold ring
  split
  · next hw =>
    split
    · next hstage =>
      split
      · exact potential_told hw hstage rfl rfl
      · omega
    · omega
  · omega

theorem potential_cancel (s : State σ ι) :
    s.cancel.potential setup budget ≤ s.potential setup budget := by
  rw [State.cancel]
  split
  · exact le_rfl
  · next hcancelled =>
    have hcancel : { s with cancelled := true }.potential setup budget + 4 =
        s.potential setup budget := by
      simp [State.potential, cancelWeight, hcancelled]
    dsimp only
    split
    · rw [State.potential_enqueue, Turn.cost_watch]
      omega
    · omega

theorem potential_watch (s : State σ ι) :
    (watch s).potential setup budget ≤ s.potential setup budget + 2 := by
  rw [watch]
  split
  · split
    · rw [State.potential_enqueue, Turn.cost_notice]
    · omega
  · change s.potential setup budget ≤ _
    omega

theorem potential_notice (e : Nat) (s : State σ ι) :
    (notice e s).potential setup budget ≤ s.potential setup budget := by
  have hweight (coordinator : Coordinator) :
      { s with coordinator := coordinator }.potential setup budget +
          s.coordinator.weight s.places.length =
        s.potential setup budget + coordinator.weight s.places.length := by
    simp only [State.potential]
    omega
  rw [notice]
  split
  · exact le_rfl
  · split
    · next hco =>
      have h := hweight (.waiting true)
      rw [hco, Coordinator.weight, Coordinator.weight] at h
      rw [State.potential_enqueue, Turn.cost_coordinate]
      omega
    · next left cause hco =>
      have h := hweight (.draining left cause)
      rw [hco, Coordinator.weight, Coordinator.weight, if_neg (Nat.succ_ne_zero left)] at h
      dsimp only
      split
      · next hzero =>
        rw [if_pos hzero] at h
        rw [State.potential_enqueue, Turn.cost_coordinate]
        omega
      · next hzero =>
        rw [if_neg hzero] at h
        omega
    · exact le_rfl

/-- Turns cost more than they bring, that of the coordinator aside. -/
theorem potential_handle (quiet : setup.IsQuiet) (frugal : setup.runner.Frugal budget)
    (hne : t ≠ .coordinate) (s : State σ ι) :
    (handle setup t s).potential setup budget < s.potential setup budget + t.cost := by
  cases t with
  | work i => exact Nat.lt_succ_of_le (potential_work quiet frugal i s)
  | expire i n => exact Nat.lt_succ_of_le (potential_expire i n s)
  | ring i n alarm => exact Nat.lt_succ_of_le (potential_ring i n alarm s)
  | cancel => exact Nat.lt_succ_of_le (potential_cancel s)
  | watch => exact Nat.lt_succ_of_le (potential_watch s)
  | notice e => exact Nat.lt_succ_of_le (potential_notice e s)
  | coordinate => exact absurd rfl hne

/-! ## The coordinator -/

theorem sum_map_add_countP {α : Type} {l : List α} {f g : α → Nat} {q : α → Bool} {n : Nat}
    (h : ∀ a ∈ l, f a + (if q a then n else 0) = g a) :
    (l.map f).sum + n * l.countP q = (l.map g).sum := by
  induction l with
  | nil => simp
  | cons a l ih =>
    have ha := h a List.mem_cons_self
    have ih := ih fun b hb ↦ h b (List.mem_cons_of_mem a hb)
    simp only [List.map_cons, List.sum_cons, List.countP_cons, Nat.mul_add]
    split at ha <;> simp_all <;> omega

theorem State.collected_coordinator (setup : Setup σ ι) (s : State σ ι) :
    (s.collected setup).coordinator = s.coordinator := by
  obtain ⟨new, hnew, -⟩ := s.collected_eq setup
  rw [hnew]

theorem State.collected_length (setup : Setup σ ι) (s : State σ ι) :
    (s.collected setup).places.length = s.places.length := by
  have h := congrArg List.length (collected_components setup s)
  rwa [List.length_map, List.length_map] at h

/-- What is settled need not be paid for any more. -/
theorem potential_collected (budget : ι → Nat) (h : s.abort? setup = none) :
    (s.collected setup).potential setup budget + 4 * s.places.countP (·.slot.finish?.isSome) =
      s.potential setup budget := by
  obtain ⟨new, hnew, -⟩ := s.collected_eq setup
  obtain ⟨k, -, hk, hlen⟩ := State.settle_places setup.policy.failFast s.halted s.places
  have hplaces : (State.settle setup.policy.failFast s.halted s.places).places =
      s.places.map Place.settled := by
    rw [hk, hlen h, List.take_length, List.drop_length, List.append_nil]
  have hsum := sum_map_add_countP (l := s.places) (f := fun p ↦ p.settled.slot.weight setup budget)
    (g := fun p ↦ p.slot.weight setup budget) (q := fun p ↦ p.slot.finish?.isSome) (n := 4)
    fun p hp ↦ by
      have houtcome := (State.settle_abort _ _ _).1 h p hp
      rcases p with ⟨_, _ | ⟨_, _, _, _, _ | _ | _ | _ | _⟩ | _⟩ <;>
        first | rfl | simp [Slot.finish?] at houtcome
  rw [hnew]
  simp only [State.potential, hplaces, List.map_map, Function.comp_def, List.length_map]
  omega

theorem potential_collected_le (setup : Setup σ ι) (budget : ι → Nat) (s : State σ ι) :
    (s.collected setup).potential setup budget ≤ s.potential setup budget := by
  have hlength := s.collected_length setup
  obtain ⟨new, hnew, -⟩ := s.collected_eq setup
  obtain ⟨k, -, hk, -⟩ := State.settle_places setup.policy.failFast s.halted s.places
  have hsettled (p : Place ι) : p.settled.slot.weight setup budget ≤ p.slot.weight setup budget := by
    rcases p with ⟨_, _ | ⟨_, _, _, _, _ | _ | _ | _ | _⟩ | _⟩ <;>
      first | exact le_rfl | exact Nat.zero_le _
  have hsum : ((State.settle setup.policy.failFast s.halted s.places).places.map
      (·.slot.weight setup budget)).sum ≤ (s.places.map (·.slot.weight setup budget)).sum := by
    conv_rhs => rw [← List.take_append_drop k s.places]
    rw [hk, List.map_append, List.map_append, List.sum_append, List.sum_append, List.map_map]
    exact Nat.add_le_add_right (List.sum_le_sum fun p _ ↦ hsettled p) _
  rw [hnew] at hlength ⊢
  simp only [State.potential, hlength]
  omega

theorem potential_places {journal : Journal} {coordinator : Coordinator} {f : Place ι → Place ι}
    (h : ∀ p, (f p).slot.weight setup budget ≤ p.slot.weight setup budget) :
    { s with places := s.places.map f, journal, coordinator }.potential setup budget +
        s.coordinator.weight s.places.length ≤
      s.potential setup budget + coordinator.weight s.places.length := by
  have hsum : ((s.places.map f).map (·.slot.weight setup budget)).sum ≤
      (s.places.map (·.slot.weight setup budget)).sum := by
    rw [List.map_map]
    exact List.sum_le_sum fun p _ ↦ h p
  simp only [State.potential, List.length_map]
  omega

theorem weight_skip (reason : String) (p : Place ι) :
    (p.skip reason).slot.weight setup budget ≤ p.slot.weight setup budget := by
  rcases p with ⟨_, _ | _ | _⟩
  · exact Nat.zero_le _
  · exact le_rfl
  · exact le_rfl

theorem weight_drained (p : Place ι) :
    p.drained.slot.weight setup budget ≤ p.slot.weight setup budget := by
  rcases p with ⟨_, _ | ⟨_, _, _, _, _ | _ | _ | _ | _⟩ | _⟩
  · exact le_rfl
  all_goals exact Nat.zero_le _

theorem potential_complete (budget : ι → Nat) (quiet : setup.IsQuiet) (s : State σ ι) :
    (complete setup s).potential setup budget + s.coordinator.weight s.places.length ≤
      s.potential setup budget := by
  obtain ⟨new, heq, -⟩ := complete_eq quiet s
  rw [heq]
  exact potential_places (weight_skip _)

theorem potential_concludeDrain (budget : ι → Nat) (quiet : setup.IsQuiet) (cause : Option Abort)
    (s : State σ ι) :
    (concludeDrain setup cause s).potential setup budget + s.coordinator.weight s.places.length ≤
      s.potential setup budget := by
  cases cause with
  | none =>
    obtain ⟨new, heq, -⟩ := concludeDrain_eq_none quiet s
    rw [heq]
    exact potential_places fun p ↦ (weight_skip _ _).trans (weight_drained p)
  | some abort =>
    obtain ⟨new, heq, -⟩ := concludeDrain_eq_some quiet abort s
    rw [heq]
    simp only [State.potential, Coordinator.weight]
    omega

/-- Work that is interrupted or has ended adds a turn, and each place has work of one kind at most. -/
theorem potential_drain (setup : Setup σ ι) (budget : ι → Nat) (cause : Option Abort)
    (s : State σ ι) :
    (drain cause s).potential setup budget + s.coordinator.weight s.places.length ≤
      s.potential setup budget + 2 * s.places.length + 2 := by
  have hinterrupted : s.places.map (fun p ↦ p.interrupted.slot.weight setup budget) =
      s.places.map (·.slot.weight setup budget) := List.map_congr_left fun p _ ↦ by
    rcases p with ⟨_, _ | ⟨_, _, _, _, _ | _ | _⟩ | _⟩ <;> rfl
  have hcount : s.places.countP (·.slot.isIdle) + s.places.countP (·.slot.finish?.isSome) ≤
      s.places.length := by
    rw [List.length_eq_countP_add_countP fun p : Place ι ↦ p.slot.isIdle]
    refine Nat.add_le_add_left (List.countP_mono_left fun p _ hp ↦ ?_) _
    rcases p with ⟨_, _ | ⟨_, _, _, _, _ | _ | _⟩ | _⟩ <;> first | rfl | cases hp
  have hworks (l : List Nat) : (l.map fun i ↦ (Turn.work i).cost + 1).sum = 2 * l.length := by
    simp [Nat.mul_comm]
  have hnotices (n e : Nat) :
      ((List.replicate n (Turn.notice e)).map fun t ↦ t.cost + 1).sum = 2 * n := by
    simp [Nat.mul_comm]
  have hweight (left : Nat) : (Coordinator.draining left cause).weight s.places.length ≤ 2 := by
    rw [Coordinator.weight]
    split <;> omega
  have hleft := hweight (s.placesWith Slot.isRunning).length
  rw [drain_eq]
  simp only [State.potential, List.map_append, List.sum_append, List.map_map, Function.comp_def,
    hworks, hnotices, State.length_placesWith, hinterrupted, List.length_map] at hleft ⊢
  omega

/-- A component that is started has been paid for. -/
theorem potential_launch (setup : Setup σ ι) (budget : ι → Nat) (free : Nat) (s : State σ ι) :
    (launch free s).potential setup budget = s.potential setup budget := by
  have hpending : ∀ i ∈ s.launchable free, s.slot? i = some .pending := by
    intro i hi
    obtain ⟨slot, hslot, hpending⟩ := State.mem_placesWith.1 (List.mem_of_mem_take hi)
    cases slot with
    | pending => exact hslot
    | running | settled => cases hpending
  have hnodup : (s.launchable free).Nodup := (s.placesWith_nodup _).sublist (List.take_sublist _ _)
  rw [launch]
  change ((s.launchable free).foldl _ s).potential setup budget = _
  generalize s.launchable free = places at hpending hnodup
  induction places generalizing s with
  | nil => rfl
  | cons i places ih =>
    obtain ⟨hi, hnodup⟩ := List.nodup_cons.1 hnodup
    have hset := State.potential_setSlot setup budget (hpending i List.mem_cons_self)
      (.running { started := s.now })
    rw [List.foldl_cons, ih _ (fun j hj ↦ ?_) hnodup]
    · rw [State.potential_enqueue, State.setWorker, Turn.cost_work]
      simp only [Slot.weight] at hset
      omega
    · have hij : i ≠ j := fun h ↦ hi (h ▸ hj)
      change (s.setSlot i _).slot? j = _
      rw [State.slot?_setSlot, if_neg hij]
      exact hpending j (List.mem_cons_of_mem i hj)

theorem potential_filled (setup : Setup σ ι) (budget : ι → Nat) (s : State σ ι) :
    (s.filled setup).potential setup budget = s.potential setup budget := by
  rw [State.filled]
  split
  · rfl
  · exact potential_launch setup budget _ s

theorem State.filled_coordinator (setup : Setup σ ι) (s : State σ ι) :
    (s.filled setup).coordinator = s.coordinator := by
  rw [State.filled]
  split
  · rfl
  · rw [launch_eq]

theorem State.filled_length (setup : Setup σ ι) (s : State σ ι) :
    (s.filled setup).places.length = s.places.length := by
  have h := congrArg List.length (filled_components setup s)
  rwa [List.length_map, List.length_map] at h

theorem potential_fill (budget : ι → Nat) (quiet : setup.IsQuiet) (s : State σ ι) :
    (fill setup s).potential setup budget + s.coordinator.weight s.places.length ≤
      s.potential setup budget + 2 * s.places.length + 4 := by
  have hcomplete := potential_complete budget quiet (s.filled setup)
  rw [fill_eq, ← potential_filled setup budget s, ← State.filled_coordinator setup s,
    ← State.filled_length setup s]
  split
  · omega
  · simp only [State.potential, Coordinator.weight]
    omega

/-- The coordinator has its turn while it waits only if it was woken. -/
theorem Control.woken (hs : Control (s.before .coordinate)) {woken : Bool}
    (hwaiting : s.coordinator = .waiting woken) : woken = true ∧ Woken (s.before .coordinate) := by
  have hcontrolled := hs.controlled
  rw [State.Controlled, show (s.before .coordinate).coordinator = s.coordinator from rfl,
    hwaiting] at hcontrolled
  cases woken with
  | false => exact absurd List.mem_cons_self hcontrolled.quiet
  | true => exact ⟨rfl, hcontrolled⟩

/-- Work that has ended pays for the start of other work. -/
theorem potential_collected_fill (budget : ι → Nat) (quiet : setup.IsQuiet)
    (hcontrol : Control (s.before .coordinate)) {woken : Bool} (hwaiting : s.coordinator = .waiting woken)
    (habort : s.abort? setup = none) (hcancelled : s.cancelled = false) :
    (fill setup (s.collected setup)).potential setup budget ≤ s.potential setup budget := by
  obtain ⟨rfl, hwoken⟩ := hcontrol.woken hwaiting
  obtain ⟨i, f, hf⟩ := hwoken.reason.resolve_left (ne_true_of_eq_false hcancelled)
  have hpos : 0 < s.places.countP (·.slot.finish?.isSome) := by
    obtain ⟨slot, hslot, hf⟩ := Option.bind_eq_some_iff.1 hf
    obtain ⟨c, hc⟩ := State.slot?_eq_some.1 hslot
    exact List.countP_pos_iff.2 ⟨_, List.mem_of_getElem? hc, by simp [hf]⟩
  have hcollected := potential_collected budget habort
  have hfill := potential_fill budget quiet (s.collected setup)
  rw [s.collected_coordinator, s.collected_length, hwaiting, Coordinator.weight] at hfill
  omega

/-- The turn of the coordinator pays for itself: it was woken by work that has ended, or the run
comes to its end. -/
theorem potential_coordinate (budget : ι → Nat) (quiet : setup.IsQuiet)
    (hcontrol : Control (s.before .coordinate)) (hdone : s.isDone = false) :
    (coordinate setup s).potential setup budget ≤ s.potential setup budget := by
  have hcollected := potential_collected_le setup budget s
  have hdrain (s' : State σ ι) (hs' : s'.potential setup budget ≤ s.potential setup budget)
      (hcoordinator : s'.coordinator = .waiting true) (cause : Option Abort) :
      (drain cause s').potential setup budget ≤ s.potential setup budget := by
    have hdrain := potential_drain setup budget cause s'
    rw [hcoordinator, Coordinator.weight] at hdrain
    omega
  have hconducts := coordinate_conducts setup s
  generalize coordinate setup s = s' at hconducts
  cases hconducts with
  | waits waiting abort cancelled busy =>
    have hfill := potential_collected_fill budget quiet hcontrol waiting abort cancelled
    rwa [fill_eq, if_neg busy] at hfill
  | completes waiting abort cancelled idle =>
    have hfill := potential_collected_fill budget quiet hcontrol waiting abort cancelled
    rwa [fill_eq, if_pos idle] at hfill
  | aborts waiting aborted =>
    obtain ⟨rfl, -⟩ := hcontrol.woken waiting
    exact hdrain _ hcollected ((s.collected_coordinator setup).trans waiting) _
  | drains waiting abort =>
    obtain ⟨rfl, -⟩ := hcontrol.woken waiting
    exact hdrain ((s.collected setup).note _) hcollected
      ((s.collected_coordinator setup).trans waiting) _
  | ends waiting abort =>
    have hconclude := potential_concludeDrain budget quiet none
      ((s.collected setup).note (s.collected setup).cancelNote)
    exact (Nat.le_add_right _ _).trans (hconclude.trans hcollected)
  | drained draining =>
    exact (Nat.le_add_right _ _).trans (potential_concludeDrain budget quiet _ s)
  | rests done => simp [State.isDone, done] at hdone

/-! ## Steps -/

/-- Something is left to happen, now or later. -/
def State.IsLively (s : State σ ι) : Prop :=
  s.turns ≠ [] ∨ ∃ t ∈ s.timers, t.due ≤ s.nextInstant

/-- A state in which nothing is left to happen remains as it is. -/
theorem step_of_not_lively (h : ¬ s.IsLively) : step setup s = s := by
  obtain ⟨hturns, htimers⟩ := not_or.1 h
  obtain ⟨hqueue, hnext⟩ := List.append_eq_nil_iff.1 (not_not.1 hturns)
  have hdue : ∀ t ∈ s.timers, ¬ t.due ≤ s.nextInstant := fun t ht hle ↦ htimers ⟨t, ht, hle⟩
  have hnow : s.nextInstant = s.now := by
    rw [State.nextInstant, hnext] at hdue ⊢
    dsimp only [List.isEmpty_nil] at hdue ⊢
    rw [if_pos rfl] at hdue ⊢
    split
    · next due hearliest =>
      split
      · next hlt =>
        obtain ⟨hmem, hnan, -⟩ := Clock.earliest_eq_some hearliest
        obtain ⟨t, ht, rfl⟩ := List.mem_map.1 hmem
        have hle := hdue t ht
        simp only [hearliest, if_pos hlt] at hle
        exact absurd (Clock.le_self hnan) hle
      · rfl
    · rfl
  have hpartition : s.timers.partition (·.due ≤ s.nextInstant) = ([], s.timers) := by
    rw [List.partition_eq_filter_filter, Prod.mk.injEq, List.filter_eq_nil_iff, List.filter_eq_self]
    exact ⟨by simpa using hdue, by simpa using hdue⟩
  unfold step
  rw [hqueue]
  dsimp only
  rw [State.advance]
  dsimp only
  rw [hpartition, hnow, hnext]
  cases s
  simp_all

theorem potential_advance (hqueue : s.queue = []) (hlively : s.IsLively) :
    s.advance.potential setup budget < s.potential setup budget := by
  have hnext : (s.next.map fun t ↦ t.cost + 1).sum = (s.next.map Turn.cost).sum + s.next.length := by
    simp [List.sum_map_add]
  have hdue : ((s.timers.filter (·.due ≤ s.nextInstant)).map fun t ↦ t.turn.cost + 1).sum =
      ((s.timers.filter (·.due ≤ s.nextInstant)).map fun t ↦ t.turn.cost).sum +
        (s.timers.filter (·.due ≤ s.nextInstant)).length := by
    simp [List.sum_map_add]
  have htimers := ((List.filter_append_perm (·.due ≤ s.nextInstant) s.timers).map
    fun t ↦ t.turn.cost + 1).sum_eq
  rw [List.map_append, List.sum_append, hdue] at htimers
  have hpos : 0 < s.next.length + (s.timers.filter (·.due ≤ s.nextInstant)).length := by
    obtain h | ⟨t, ht, hdue⟩ := hlively
    · have := List.length_pos_of_ne_nil (l := s.next) (by simpa [State.turns, hqueue] using h)
      omega
    · have hmem : t ∈ s.timers.filter (·.due ≤ s.nextInstant) :=
        List.mem_filter.2 ⟨ht, by simpa using hdue⟩
      have := List.length_pos_of_mem hmem
      omega
  simp only [State.potential, State.advance, List.partition_eq_filter_filter, hqueue, List.map_append,
    List.sum_append, List.map_map, Function.comp_def, List.map_nil, List.sum_nil]
  omega

/-- Every step lowers the potential, as long as something is left to happen. -/
theorem potential_step (quiet : setup.IsQuiet) (frugal : setup.runner.Frugal budget)
    (hcontrol : Control s) (hdone : s.isDone = false) (hlively : s.IsLively) :
    (step setup s).potential setup budget < s.potential setup budget := by
  unfold step
  split
  · next t queue hqueue =>
    have hbefore : s.potential setup budget =
        { s with queue := queue }.potential setup budget + t.cost := by
      simp only [State.potential, hqueue, List.map_cons, List.sum_cons]
      omega
    rw [hbefore]
    by_cases hne : t = .coordinate
    · subst hne
      rw [State.eq_before hqueue] at hcontrol
      exact Nat.lt_succ_of_le (potential_coordinate budget quiet hcontrol hdone)
    · exact potential_handle quiet frugal hne _
  · next hqueue => exact potential_advance hqueue hlively

end Run

end Testbed
