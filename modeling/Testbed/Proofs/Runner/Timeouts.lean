import Testbed.Proofs.Runner.Teardown

/-!
# Attempts that run out of time

In a run that nobody cancels only time limits interrupt anything.  If the runner's invocations give in
to every interruption, and to nothing else, then an attempt whose limit expires before it has ended is
a timeout whatever its invocation does from then on: the component is reported as errored with the text
about its limit, and no further attempt is made.  A tool whose process is asked to end waits until it has
exited or its grace period is over.
-/

namespace Testbed

open Run

/-- A runner whose invocations give in when they are interrupted; `told` says which of them know of an
interruption. -/
structure Runner.Compliant {σ ι : Type} (runner : Runner σ ι) (told : ι → Prop) : Prop where
  resume (shared : σ) (now : Float) (invocation : ι) (wake : Wake) :
    told invocation ∨ wake.interrupted = true →
      (runner.resume shared now invocation wake).2.GivesIn told

/-- What an activity leaves waiting, with the alarms that it waits for. -/
def Activity.Next.Leaves {ι ρ : Type} (P : ι → List Nat → Prop) : Activity.Next ι ρ → Prop
  | .ends _ => True
  | .yields state => P state []
  | .waits state keep alarms => P state (keep ++ alarms.map (·.1))

theorem Reply.Stirs.and {ι : Type} {reply : Reply ι Ending} {fit P : ι → List Nat → Prop}
    (h : reply.Stirs fit) (hleaves : reply.next.Leaves P) :
    reply.Stirs fun invocation awaits ↦ fit invocation awaits ∧ P invocation awaits := by
  obtain ⟨notes, next⟩ := reply
  cases next with
  | ends => trivial
  | yields => exact ⟨h, hleaves⟩
  | waits =>
    obtain ⟨hfit, halarms⟩ := h
    exact ⟨⟨hfit, hleaves⟩, halarms⟩

/-- The outcome of a component whose last attempt, the `n`-th one, ran out of time. -/
structure Outcome.IsTimeout (policy : Policy) (n : Nat) (o : Outcome) : Prop where
  status : o.status = .errored
  diagnostics : o.diagnostics = (timedOut policy).diagnostics
  attempts : o.attempts = n

namespace Run

variable {σ ι : Type} {setup : Setup σ ι} {told : ι → Prop} {n : Nat} {c : String} {s : State σ ι}
  {w w' : Worker ι} {slot slot' : Slot ι} {reply : Reply ι Ending}

/-! ## Work whose limit has expired -/

/-- A waiting invocation whose limit has expired is told so exactly once, and work that ends after its
limit has expired ends in a timeout. -/
def Worker.Heeds (told : ι → Prop) (policy : Policy) (w : Worker ι) : Prop :=
  match w.stage with
  | .fresh => True
  | .suspended invocation _ signals =>
    w.expired = true → (told invocation ↔ signals.interrupted = false)
  | .finished f => w.expired = true → ∃ o, f = .outcome o ∧ o.IsTimeout policy w.attempt

def Slot.Heeds (told : ι → Prop) (policy : Policy) : Slot ι → Prop
  | .running w => w.Heeds told policy
  | _ => True

/-- Nothing but its limit interrupts the work on a component, and it heeds that. -/
structure Slot.Timed (told : ι → Prop) (policy : Policy) (slot : Slot ι) : Prop where
  calm : slot.Calm told
  heeds : slot.Heeds told policy

/-- The `n`-th attempt at a component has run out of time. -/
def Slot.Overran (policy : Policy) (n : Nat) : Slot ι → Prop
  | .pending => False
  | .running w => w.expired = true ∧ w.attempt = n
  | .settled o => o.IsTimeout policy n

theorem Slot.Calm.isHeard (h : slot.Calm told) : slot.IsHeard := by
  intro failure hfinish
  obtain ⟨o, ho⟩ := h.exists_outcome hfinish
  cases ho

/-- When an invocation gives in because its limit has expired, the attempt counts as a timeout. -/
theorem Worker.assess_of_givesIn {ending : Ending} (houtstanding : w.outstanding = w.expired.toNat)
    (hexpired : w.expired = true) (hgives : reply.GivesIn told) (next : reply.next = .ends ending)
    (policy : Policy) : w.assess policy ending = .counted (timedOut policy) false := by
  rw [Reply.GivesIn, next] at hgives
  obtain rfl : ending = .interrupted := hgives
  exact assess_interrupted houtstanding hexpired policy

/-- An invocation that knows that its limit has expired is not interrupted again. -/
theorem Slot.Timed.not_interrupted {policy : Policy} {invocation : ι} {awaits : List Nat}
    {signals : Signals} (timed : (Slot.running w).Timed told policy)
    (hstage : w.stage = .suspended invocation awaits signals) (htold : told invocation) :
    signals.interrupted = false := by
  obtain ⟨hcalm, hheeds⟩ := timed
  rw [Slot.Calm, Worker.Calm, hstage] at hcalm
  rw [Slot.Heeds, Worker.Heeds, hstage] at hheeds
  exact (hheeds (hcalm.2 (.inl htold))).1 htold

/-- The reply with which work goes on gives in if the limit has expired. -/
theorem Setup.Answers.givesIn (compliant : setup.runner.Compliant told)
    (answers : setup.Answers c w reply) (timed : (Slot.running w).Timed told setup.policy) :
    w.outstanding = w.expired.toNat ∧ (w.expired = true → reply.GivesIn told) := by
  obtain ⟨hcalm, hheeds⟩ := timed
  rw [Slot.Calm, Worker.Calm] at hcalm
  rw [Slot.Heeds, Worker.Heeds] at hheeds
  cases answers with
  | starts shared now stage =>
    rw [stage] at hcalm
    obtain ⟨hexpired, houtstanding⟩ := hcalm
    refine ⟨by rw [houtstanding, hexpired]; rfl, ?_⟩
    intro h
    cases hexpired.symm.trans h
  | @resumes v awaits rung interrupted shared now stage =>
    rw [stage] at hcalm hheeds
    refine ⟨hcalm.1, ?_⟩
    intro hexpired
    apply compliant.resume
    cases interrupted with
    | false => exact .inl ((hheeds hexpired).2 rfl)
    | true => exact .inr rfl

section Leads

variable {now : Float} (leads : setup.Leads now c w reply w')
  (houtstanding : w.outstanding = w.expired.toNat) (hgives : w.expired = true → reply.GivesIn told)
include leads houtstanding hgives

/-- What comes of a reply heeds the limit, if the reply does. -/
theorem Setup.Leads.heeds : w'.Heeds told setup.policy := by
  induction leads with
  | yields next | waits next =>
    intro hexpired
    have htold := hgives hexpired
    rw [Reply.GivesIn, next] at htold
    exact iff_of_true htold rfl
  | interrupted next assess =>
    intro hexpired
    cases assess.symm.trans
      (Worker.assess_of_givesIn houtstanding hexpired (hgives hexpired) next setup.policy)
  | concludes next assess =>
    intro hexpired
    cases assess.symm.trans
      (Worker.assess_of_givesIn houtstanding hexpired (hgives hexpired) next setup.policy)
    exact ⟨_, rfl, rfl, rfl, rfl⟩
  | again shared next assess errored left leads ih =>
    apply ih (Worker.released_outstanding houtstanding)
    intro hexpired
    cases hexpired

/-- An attempt that has run out of time is the last one. -/
theorem Setup.Leads.overran (hexpired : w.expired = true) :
    w'.expired = true ∧ w'.attempt = w.attempt := by
  cases leads with
  | yields | waits | interrupted | concludes => exact ⟨hexpired, rfl⟩
  | again shared next assess =>
    cases assess.symm.trans
      (Worker.assess_of_givesIn houtstanding hexpired (hgives hexpired) next setup.policy)

end Leads

section Changes

variable (compliant : setup.runner.Compliant told)
include compliant

theorem Setup.Change.timed (steadfast : setup.runner.Steadfast told) (h : setup.Change c slot slot')
    (hs : slot.Timed told setup.policy) : slot'.Timed told setup.policy := by
  refine ⟨h.calm steadfast hs.calm, ?_⟩
  cases h with
  | launches => trivial
  | goes now answers leads =>
    obtain ⟨houtstanding, hgives⟩ := answers.givesIn compliant hs
    exact leads.heeds houtstanding hgives
  | rings alarm stage =>
    have hheeds := hs.heeds
    rw [Slot.Heeds, Worker.Heeds, stage] at hheeds
    exact hheeds
  | expires stage expired =>
    -- the invocation does not know of an interruption yet
    have hcalm := hs.calm
    rw [Slot.Calm, Worker.Calm, stage] at hcalm
    rw [Slot.interrupted, stage]
    intro _
    refine iff_of_false (fun htold ↦ ?_) (fun h ↦ by cases h)
    cases expired.symm.trans (hcalm.2 (.inl htold))
  | settles =>
    unfold Slot.settle
    split
    · trivial
    · exact hs.heeds

/-- Once an attempt has run out of time, the component remains with it. -/
theorem Setup.Change.overran (h : setup.Change c slot slot') (hs : slot.Timed told setup.policy)
    (hover : slot.Overran setup.policy n) : slot'.Overran setup.policy n := by
  cases h with
  | launches => exact hover.elim
  | goes now answers leads =>
    obtain ⟨hexpired, rfl⟩ := hover
    obtain ⟨houtstanding, hgives⟩ := answers.givesIn compliant hs
    exact leads.overran houtstanding hgives hexpired
  | rings => exact hover
  | expires stage expired => cases expired.symm.trans hover.1
  | settles =>
    unfold Slot.settle
    split
    · next o hfinish =>
      obtain ⟨w, rfl, hstage⟩ := Slot.finish?_eq_some.1 hfinish
      obtain ⟨hexpired, rfl⟩ := hover
      have hheeds := hs.heeds
      rw [Slot.Heeds, Worker.Heeds, hstage] at hheeds
      obtain ⟨o', ho, htimeout⟩ := hheeds hexpired
      cases ho
      exact htimeout
    · exact hover

end Changes

theorem Slot.Timed.skip (hs : slot.Timed told setup.policy) (reason : String) :
    (slot.skip c reason).Timed told setup.policy := by
  cases slot with
  | pending => exact ⟨trivial, trivial⟩
  | running | settled => exact hs

theorem Slot.Overran.skip {policy : Policy} (hs : slot.Overran policy n) (reason : String) :
    (slot.skip c reason).Overran policy n := by
  cases slot with
  | pending => exact hs.elim
  | running | settled => exact hs

/-! ## Runs that nobody cancels -/

/-- A run that goes on until everything is settled, or has come to its end so. -/
structure State.Serene (told : ι → Prop) (s : State σ ι) : Prop where
  undisturbable : Undisturbable s
  whole : s.Whole
  smooth : s.Smooth told

/-- Nothing tears down a run in which nothing but limits interrupts. -/
theorem State.Smooth.not_torn (hs : s.Smooth told) : ¬s.Torn := by
  intro htorn
  rw [Torn] at htorn
  rw [Smooth] at hs
  split at hs
  · next hco =>
    rw [hco] at htorn
    obtain ⟨i, hi⟩ := htorn
    obtain ⟨slot, hslot, hfinish⟩ := Option.bind_eq_some_iff.1 hi
    obtain ⟨c, hplace⟩ := State.slot?_eq_some.1 hslot
    obtain ⟨o, ho⟩ := (hs _ (List.mem_of_getElem? hplace)).exists_outcome hfinish
    cases ho
  · next hco =>
    rw [hco] at htorn
    cases hs.symm.trans htorn
  · next hco =>
    rw [hco] at htorn
    cases hs.1.symm.trans htorn

namespace State.Serene

variable (quiet : setup.IsQuiet) (steadfast : setup.runner.Steadfast told)
include quiet steadfast

theorem begin (now : Float) (shared : σ) (components : List String) :
    (begin setup .never now shared components).Serene told := by
  have hsmooth : (Run.begin setup .never now shared components).Smooth told :=
    Smooth.fill quiet steadfast (opening_all _ _ _ _ fun _ ↦ trivial)
  refine ⟨.begin quiet now shared components, ?_, hsmooth⟩
  exact (Whole.fill quiet _).resolve_right fun h ↦ hsmooth.not_torn h.1

omit quiet steadfast in
theorem waiting (hs : s.Serene told) (hdone : s.isDone = false) :
    (∃ woken, s.coordinator = .waiting woken) ∧ s.All fun _ slot ↦ slot.IsHeard := by
  obtain ⟨woken, hco⟩ := hs.whole.exists_waiting hdone
  have hcalm := hs.smooth
  rw [Smooth, hco] at hcalm
  exact ⟨⟨woken, hco⟩, fun p hp ↦ (hcalm p hp).isHeard⟩

theorem step (hs : s.Serene told) (hdone : s.isDone = false) : (step setup s).Serene told := by
  have hsmooth := hs.smooth.step quiet steadfast hdone
  have hstep := hs.whole.step quiet hs.undisturbable.cancelled (hs.waiting hdone).2 hdone
  exact ⟨hs.undisturbable.step quiet, hstep.resolve_right fun h ↦ hsmooth.not_torn h.1, hsmooth⟩

omit steadfast in
/-- What changes and skips keep is kept by such a run, which is never drained. -/
theorem step_all {P : String → Slot ι → Prop}
    (hchange : ∀ c slot slot', setup.Change c slot slot' → P c slot → P c slot')
    (hskips : ∀ c reason slot, P c slot → P c (slot.skip c reason)) (hs : s.Serene told)
    (hdone : s.isDone = false) (hall : s.All P) : (Run.step setup s).All P := by
  obtain ⟨⟨woken, hco⟩, hheard⟩ := hs.waiting hdone
  unfold Run.step
  split
  · next t queue _ =>
    have hrest : State.All P { s with queue := queue } := hall
    obtain ⟨i, ht⟩ | rfl | ⟨ht, hne⟩ := t.kinds
    · exact hrest.turned hchange (handle_turned quiet ht _) (handle_changed quiet ht _)
    · have hsteers (c : String) (slot slot' : Slot ι) (h : Slot.Steers slot slot') :=
        hchange c slot slot' h.change
      rw [handle, Whole.coordinate_eq (s := { s with queue := queue }) hs.undisturbable.cancelled
        hheard hs.whole hco]
      exact (hrest.collected hsteers).fill quiet hsteers hskips
    · exact hrest.of_places (handle_tells setup ht hne _).places
  · exact hall

/-- Hence it is kept as long as the run goes on. -/
theorem steps_all {P : String → Slot ι → Prop}
    (hchange : ∀ c slot slot', setup.Change c slot slot' → P c slot → P c slot')
    (hskips : ∀ c reason slot, P c slot → P c (slot.skip c reason)) (hs : s.Serene told)
    (hall : s.All P) (n : Nat) : (steps setup n s).Serene told ∧ (steps setup n s).All P := by
  apply steps_induction (P := fun s ↦ s.Serene told ∧ s.All P) ?_ ⟨hs, hall⟩
  rintro s hdone ⟨hs, hall⟩
  exact ⟨hs.step quiet steadfast hdone, hs.step_all quiet hchange hskips hdone hall⟩

omit quiet steadfast in
/-- When such a run is over, it brings a report in which everything is settled. -/
theorem ended_report (hs : s.Serene told) (hdone : s.isDone = true) :
    s.ended.report = .ok s.report ∧ s.All fun _ slot ↦ ∃ o, slot = .settled o := by
  have hsmooth := hs.smooth
  rw [Smooth] at hsmooth
  rw [isDone] at hdone
  split at hdone
  · next hco =>
    rw [hco] at hsmooth
    obtain ⟨rfl, hsettled⟩ := hsmooth
    exact ⟨by rw [ended, hco], hsettled⟩
  · cases hdone

end State.Serene

section Never

variable (quiet : setup.IsQuiet) (steadfast : setup.runner.Steadfast told)
  (compliant : setup.runner.Compliant told) (now : Float) (shared : σ) (components : List String)
include quiet steadfast compliant

/-- At any time in a run that is never cancelled all work heeds its limits. -/
theorem steps_timed (m : Nat) :
    (steps setup m (begin setup .never now shared components)).Serene told ∧
      (steps setup m (begin setup .never now shared components)).All fun _ slot ↦
        slot.Timed told setup.policy := by
  have hchange (c : String) (slot slot' : Slot ι) (h : setup.Change c slot slot') :=
    h.timed compliant steadfast
  have hskips (c reason : String) (slot : Slot ι) (hs : slot.Timed told setup.policy) :=
    hs.skip (c := c) reason
  apply State.Serene.steps_all quiet steadfast hchange hskips (.begin quiet steadfast _ _ _)
  rw [begin_eq]
  apply State.All.fill quiet (fun c _ _ h ↦ hchange c _ _ h.change) hskips
  exact opening_all _ _ _ _ fun _ ↦ ⟨trivial, trivial⟩

section Expired

variable (hnodup : components.Nodup) {m : Nat} {w : Worker ι}
  (hplace : ⟨c, .running w⟩ ∈ (steps setup m (begin setup .never now shared components)).places)
  (hexpired : w.expired = true)
include hnodup hplace hexpired

/-- From the expiry of its limit on, a component remains with the attempt that has run out of time. -/
theorem steps_overran (k : Nat) :
    (steps setup k (steps setup m (begin setup .never now shared components))).All fun c' slot ↦
      c' = c → slot.Overran setup.policy w.attempt := by
  obtain ⟨hserene, htimed⟩ := steps_timed quiet steadfast compliant now shared components m
  have hkept := hserene.steps_all quiet steadfast
    (P := fun c' slot ↦ slot.Timed told setup.policy ∧ (c' = c → slot.Overran setup.policy w.attempt))
    ?_ ?_ ?_ k
  · exact fun p hp ↦ (hkept.2 p hp).2
  · rintro c' slot slot' h ⟨timed, hover⟩
    exact ⟨h.timed compliant steadfast timed, fun hc ↦ h.overran compliant timed (hover hc)⟩
  · rintro c' reason slot ⟨timed, hover⟩
    exact ⟨timed.skip reason, fun hc ↦ (hover hc).skip reason⟩
  · intro p hp
    refine ⟨htimed p hp, fun hc ↦ ?_⟩
    have hnames := steps_begin_components .never now shared components quiet m
    obtain rfl := List.inj_on_of_nodup_map (hnames.symm ▸ hnodup) hp hplace hc
    exact ⟨hexpired, rfl⟩

/-- An attempt that has run out of time at some time in the run is the last one at its component,
which is reported as timed out. -/
theorem execute_overran (hdone : (final setup .never now shared components).isDone = true) :
    ∃ report, (execute setup .never now shared components).report = .ok report ∧
      report.outcomes.map (·.component) = components ∧
      ∃ o ∈ report.outcomes, o.component = c ∧ o.IsTimeout setup.policy w.attempt := by
  obtain ⟨hserene, -⟩ := steps_timed quiet steadfast compliant now shared components
    (turnBound setup .never components)
  have hnames := steps_begin_components .never now shared components quiet
    (turnBound setup .never components)
  have hbears := setup.keeps_bears.steps quiet (begin_bears .never now shared components quiet)
    (turnBound setup .never components)
  have hover := steps_overran quiet steadfast compliant now shared components hnodup hplace hexpired
    (turnBound setup .never components)
  rw [← final_eq_steps hdone m] at hover
  obtain ⟨hreport, hsettled⟩ := hserene.ended_report hdone
  refine ⟨_, hreport, (report_components hsettled hbears).trans hnames, ?_⟩
  obtain ⟨⟨_, slot⟩, hp, rfl⟩ : ∃ p ∈ (final setup .never now shared components).places,
      p.component = c := by
    apply List.mem_map.1
    rw [final, hnames, ← steps_begin_components .never now shared components quiet m]
    exact List.mem_map_of_mem hplace
  obtain ⟨o, rfl⟩ := hsettled _ hp
  exact ⟨o, List.mem_filterMap.2 ⟨_, hp, rfl⟩, hbears _ hp o (.inl rfl), hover _ hp rfl⟩

end Expired

end Never

end Run

/-! ## Executions of processes -/

namespace Job

namespace Child

variable {c : Child}

/-- Alarms for exits of a process. -/
def AreExits (alarms : List (Nat × Float)) : Prop :=
  ∀ alarm ∈ alarms, ∃ e, alarm.1 = (Alarm.exit e).number

theorem exitAfter_areExits (delay : Float) (e : Exit) : AreExits (c.exitAfter delay e).2 := by
  unfold exitAfter
  split
  · nofun
  · intro alarm halarm
    rw [List.mem_singleton.1 halarm]
    exact ⟨e, rfl⟩

theorem await_areExits (c : Child) : AreExits c.await.2 := by
  unfold await
  split
  · nofun
  · dsimp only
    split
    · nofun
    · exact exitAfter_areExits _ .own

theorem terminate_areExits (c : Child) : AreExits c.terminate.2 := by
  unfold terminate signalled
  split
  · nofun
  · split
    · nofun
    · dsimp only
      split
      · nofun
      · exact exitAfter_areExits _ .terminated

end Child

namespace Execution

/-- An execution whose process was asked to end waits for exits and for the end of the grace period. -/
def Lingers : Execution → List Nat → Prop
  | .ending _, awaits => Alarm.grace.number ∈ awaits ∧
      ∀ alarm ∈ awaits, alarm = Alarm.grace.number ∨ ∃ e, alarm = (Alarm.exit e).number
  | _, _ => True

theorem interrupt_givesUp (c : Child) : GivesUp (interrupt c).next := by
  unfold interrupt
  split
  · exact .ends
  · dsimp only
    split
    · exact .ends
    · exact .waits _ _ (.ending _)

/-- An execution that is interrupted, or knows that it was, is given up. -/
theorem givesUp_resume {e : Execution} {wake : Wake} (h : e.IsEnding ∨ wake.interrupted = true) :
    GivesUp (e.resume wake).next := by
  cases e with
  | reading c passOn read bytes rest =>
    obtain h | h := h
    · cases h
    · rw [resume, if_pos h]
      exact interrupt_givesUp _
  | exiting c output =>
    obtain h | h := h
    · cases h
    · rw [resume, if_pos h]
      exact interrupt_givesUp _
  | ending c => exact .ends

/-- What is not given up does not linger. -/
theorem leaves_of_not_givesUp {next : Activity.Next Execution Result} (h : ¬GivesUp next) :
    next.Leaves Lingers := by
  cases next with
  | ends => trivial
  | yields e =>
    cases e with
    | reading | exiting => trivial
    | ending c => exact absurd (.yields (.ending c)) h
  | waits e =>
    cases e with
    | reading | exiting => trivial
    | ending c => exact absurd (.waits _ _ (.ending c)) h

theorem interrupt_leaves (c : Child) : (interrupt c).next.Leaves Lingers := by
  unfold interrupt
  split
  · trivial
  · dsimp only
    split
    · trivial
    · constructor
      · simp [askToEnd]
      · intro number hnumber
        obtain hkept | hset := List.mem_append.1 hnumber
        · obtain ⟨e, -, rfl⟩ := List.mem_map.1 hkept
          exact .inr ⟨e, rfl⟩
        · obtain ⟨alarm, halarm, rfl⟩ := List.mem_map.1 hset
          rw [askToEnd, List.mem_append, List.mem_cons] at halarm
          obtain h | rfl | h := halarm
          · exact .inr (c.terminate_areExits alarm h)
          · exact .inl rfl
          · exact .inr (c.terminate.1.await_areExits alarm h)

theorem resume_leaves (e : Execution) (wake : Wake) : (e.resume wake).next.Leaves Lingers := by
  by_cases hgives : GivesUp (e.resume wake).next
  · have hcause := resume_givesUp hgives
    cases e with
    | reading c passOn read bytes rest =>
      obtain h | h := hcause
      · cases h
      · rw [resume, if_pos h]
        exact interrupt_leaves _
    | exiting c output =>
      obtain h | h := hcause
      · cases h
      · rw [resume, if_pos h]
        exact interrupt_leaves _
    | ending c => trivial
  · exact leaves_of_not_givesUp hgives

end Execution

end Job

namespace Tool

theorem givesIn_reply {t : Tool} {component : String} {capture : Bool}
    {r : Reply Job.Execution Job.Result} (h : Job.Execution.GivesUp r.next) :
    (t.reply component capture r).GivesIn fun i ↦ i.execution.IsEnding := by
  obtain ⟨notes, next⟩ := r
  cases h with
  | ends => rfl
  | yields ending => exact ending
  | waits keep alarms ending => exact ending

theorem runner_compliant (t : Tool) (around : Surroundings) :
    (t.runner around).Compliant fun i ↦ i.execution.IsEnding where
  resume _ _ _ _ h := givesIn_reply (Job.Execution.givesUp_resume h)

theorem reply_leaves {t : Tool} {component : String} {capture : Bool}
    {r : Reply Job.Execution Job.Result} (h : r.next.Leaves Job.Execution.Lingers) :
    (t.reply component capture r).next.Leaves fun i ↦ i.execution.Lingers := by
  obtain ⟨notes, next⟩ := r
  cases next <;> exact h

theorem runner_lingers (t : Tool) {around : Surroundings} (timely : around.IsTimely) :
    (t.runner around).Restless fun i awaits ↦ i.execution.Fit awaits ∧ i.execution.Lingers awaits where
  start n now component capture := by
    apply ((t.runner_restless timely).start n now component capture).and
    exact reply_leaves (Job.Execution.leaves_of_not_givesUp (Job.Execution.start_not_givesUp _ _ _))
  resume n now i awaits wake hfit hrung hwoken := by
    apply ((t.runner_restless timely).resume n now i awaits wake hfit.1 hrung hwoken).and
    exact reply_leaves (Job.Execution.resume_leaves _ _)

section Runs

variable {t : Tool} {around : Surroundings} (timely : around.IsTimely)
  {setup : Setup Nat Invocation} (hrunner : setup.runner = t.runner around) (quiet : setup.IsQuiet)
include timely hrunner quiet

/-- In a run of a tool that is never cancelled, the limit of an attempt that expires before the attempt
has ended makes a timeout of it, whatever its process does from then on: the component is reported so,
and no further attempt is made, whether or not there are retries left. -/
theorem execute_timedOut (bounded : around.IsBounded) {registry : Registry} {components : List String}
    (hlist : registry.list = .ok components) {now : Float} (hnow : Clock.IsInstant now) (started : Nat)
    {limit : Float} (hlimit : setup.policy.timeout = some limit) {m : Nat} {c : String}
    {w : Worker Invocation}
    (hplace : ⟨c, .running w⟩ ∈ (steps setup m (begin setup .never now started components)).places)
    (hexpired : w.expired = true) :
    ∃ report, (execute setup .never now started components).report = .ok report ∧
      report.outcomes.map (·.component) = components ∧
      ∃ o ∈ report.outcomes, o.component = c ∧ o.status = .errored ∧
        o.diagnostics = some ("Timed out after " ++ Decimal.generalText limit ++ "s") ∧
        o.attempts = w.attempt := by
  have steadfast := t.runner_steadfast around
  have compliant := t.runner_compliant around
  have frugal := t.runner_frugal bounded
  have restless := t.runner_restless timely
  rw [← hrunner] at steadfast compliant frugal restless
  have hdone : (final setup .never now started components).isDone = true :=
    final_isDone_of_restless quiet frugal restless hnow
      (fun _ hdelay ↦ absurd hdelay List.not_mem_nil) started components
  obtain ⟨report, hreport, hcomponents, o, ho, hcomponent, htimeout⟩ := execute_overran quiet steadfast
    compliant now started components (Registry.nodup_of_list hlist) hplace hexpired hdone
  refine ⟨report, hreport, hcomponents, o, ho, hcomponent, htimeout.status, ?_, htimeout.attempts⟩
  rw [htimeout.diagnostics, timedOut, hlimit, Option.getD_some]

/-- An attempt of such a run whose process was asked to end goes on only when the process has exited
or its grace period is over. -/
theorem steps_linger (now : Float) (started : Nat) (components : List String) {m : Nat} {c : String}
    {w : Worker Invocation} {i : Invocation} {awaits rung : List Nat} {interrupted : Bool}
    {child : Job.Child}
    (hplace : ⟨c, .running w⟩ ∈ (steps setup m (begin setup .never now started components)).places)
    (hstage : w.stage = .suspended i awaits ⟨true, rung, interrupted⟩)
    (hending : i.execution = .ending child) : interrupted = false ∧
      (Job.Alarm.grace.number ∈ rung ∨ (child.hear rung).code.isSome = true) := by
  have steadfast := t.runner_steadfast around
  have compliant := t.runner_compliant around
  have restless := t.runner_lingers timely
  rw [← hrunner] at steadfast compliant restless
  have timed := (steps_timed quiet steadfast compliant now started components m).2 _ hplace
  have hinterrupted : interrupted = false := timed.not_interrupted hstage (hending ▸ .ending child)
  have keeps := Setup.keeps_fit restless
  have hfit : w.stage.IsFit _ :=
    keeps.steps quiet (keeps.begin quiet (fun _ ↦ trivial) .never now started components) m _ hplace
  rw [hstage] at hfit
  obtain ⟨⟨-, hlingers⟩, hrung, hwoken⟩ := hfit
  rw [hending] at hlingers
  obtain ⟨hgrace, hexits⟩ := hlingers
  have hne : rung ≠ [] := by
    obtain h | h | h := hwoken rfl
    · exact h
    · cases hinterrupted.symm.trans h
    · rw [h] at hgrace
      cases hgrace
  obtain ⟨alarm, halarm⟩ := List.exists_mem_of_ne_nil _ hne
  refine ⟨hinterrupted, ?_⟩
  obtain rfl | ⟨e, rfl⟩ := hexits alarm (hrung alarm halarm)
  · exact .inl halarm
  · exact .inr (Job.Child.hear_isSome halarm)

end Runs

/-- A process that ignores the request to end is left running when its grace period is over. -/
example :
    let stubborn : Job.Behaviour := { exitDelay := 100.0, onTerminate := none }
    let around : Surroundings := { Surroundings.failing with behaviour _ := stubborn }
    let tool := (Configured.command ⟨"tool", [], none, []⟩).tool "/bin/tool"
    let ended := execute { runner := tool.runner around, policy := { timeout := some 1.0, retries := 2 } }
      .never 0.0 0 ["alpha"]
    (ended.finishes "alpha").map Float.toBits = [(6.0 : Float).toBits] ∧
      ended.journal.any (·.note matches .kill) = false := by
  decide +kernel

end Tool

end Testbed
