import Testbed.Proofs.Registry
import Testbed.Proofs.Run.Completeness
import Testbed.Proofs.Run.Mishaps
import Testbed.Proofs.Runner.Readiness
import Testbed.Proofs.Runner.Timeliness

/-!
# Runs with and without captured output

Whether the output of a runner is captured does not matter to what a run finds out.  Both runs take the
same turns, and their reports differ at most in diagnostics: without captured output, only what was
skipped or ended in a mishap has any.
-/

namespace Testbed

open Run Clock

/-! ## Runners that do not mind -/

/-- Endings that differ in the diagnostics of an answer at most. -/
inductive Ending.Agree : Ending → Ending → Prop
  | answered {status : Status} (tested : status ≠ .skipped) (d d' : Option String) :
    Agree (.answered ⟨status, d⟩) (.answered ⟨status, d'⟩)
  | raised (failure : Failure) : Agree (.raised failure) (.raised failure)
  | interrupted : Agree .interrupted .interrupted

/-- A policy under which output is captured, or is not. -/
def Policy.capturing (policy : Policy) (capture : Bool) : Policy :=
  { policy with captureOutput := capture }

section Impartial

variable {σ ι : Type} {runner : Runner σ ι} {shared : σ → σ → Prop} {invocation : ι → ι → Prop}

/-- How a run with captured output and one without may differ. -/
def captureBond (shared : σ → σ → Prop) (invocation : ι → ι → Prop) : Bond σ ι where
  shared := shared
  invocation := invocation
  ending := Ending.Agree
  diagnostics status d d' := d' = d ∨ status ≠ .skipped ∧ d' = none
  parting := False

/-- A runner that replies alike whether its output is captured or not. -/
structure Runner.Impartial (runner : Runner σ ι) (shared : σ → σ → Prop) (invocation : ι → ι → Prop) :
    Prop where
  start {x x' : σ} (h : shared x x') (now : Float) (component : String) :
    shared (runner.start x now component true).1 (runner.start x' now component false).1 ∧
      (captureBond shared invocation).Next (runner.start x now component true).2.next
        (runner.start x' now component false).2.next
  resume {x x' : σ} {v v' : ι} (h : shared x x') (hv : invocation v v') (now : Float) (wake : Wake) :
    shared (runner.resume x now v wake).1 (runner.resume x' now v' wake).1 ∧
      (captureBond shared invocation).Next (runner.resume x now v wake).2.next
        (runner.resume x' now v' wake).2.next

theorem captureBond_judges (policy : Policy) {ending ending' : Ending} (h : ending.Agree ending')
    (expired : Bool) (outstanding : Nat) (component : String) :
    (captureBond shared invocation).Assessments
        (assess (policy.capturing true) expired outstanding ending)
        (assess (policy.capturing false) expired outstanding ending') ∧
      assessmentNotes (policy.capturing false) expired outstanding component ending' =
        assessmentNotes (policy.capturing true) expired outstanding component ending := by
  have hsame (status : Status) (d : Option String) :
      (captureBond shared invocation).diagnostics status d d := Or.inl rfl
  cases h with
  | @answered status tested d d' =>
    have hdropped : (captureBond shared invocation).diagnostics status d none := Or.inr ⟨tested, rfl⟩
    exact ⟨.counted hdropped true, rfl⟩
  | raised failure =>
    unfold assess
    dsimp only
    split
    · exact ⟨.counted (hsame _ _) false, rfl⟩
    · exact ⟨.counted (hsame _ _) true, rfl⟩
  | interrupted =>
    unfold assess
    dsimp only
    split
    · exact ⟨.counted (hsame _ _) false, rfl⟩
    · exact ⟨.interrupted, rfl⟩

theorem Runner.Impartial.resembles (impartial : runner.Impartial shared invocation)
    (discreet : runner.IsDiscreet) (policy : Policy) : Setup.Resembles (captureBond shared invocation)
      { runner, policy := policy.capturing true } { runner, policy := policy.capturing false } where
  quiet := isQuiet_default _ _
  quiet' := isQuiet_default _ _
  policy := rfl
  turns := rfl
  same _ _ := .inl rfl
  start h now component :=
    have ⟨hshared, hnext⟩ := impartial.start h now component
    ⟨hshared, hnext, discreet.start _ _ _ _, discreet.start _ _ _ _⟩
  resume h hv now wake :=
    have ⟨hshared, hnext⟩ := impartial.resume h hv now wake
    ⟨hshared, hnext, discreet.resume _ _ _ _, discreet.resume _ _ _ _⟩
  judges h expired outstanding component :=
    .inr (captureBond_judges policy h expired outstanding component)

end Impartial

/-! ## What the runs have in common -/

/-- What the outcome of a component would be without captured output; a text says the mishap in which
the work on it ended. -/
structure Outcome.Uncaptured (ruin : String → Prop) (o o' : Outcome) : Prop where
  component : o'.component = o.component
  status : o'.status = o.status
  duration : o'.duration = o.duration
  attempts : o'.attempts = o.attempts
  skipped : o.status = .skipped → o'.diagnostics = o.diagnostics
  ruined (text : String) : ruin text → o.diagnostics = some text ∧ o'.diagnostics = some text
  other : o.status ≠ .skipped → (∀ text, ¬ ruin text) → o'.diagnostics = none

theorem Outcome.Uncaptured.of_diagnostics {ruin : String → Prop} {o : Outcome} {d : Option String}
    (hd : d = o.diagnostics ∨ o.status ≠ .skipped ∧ d = none)
    (hruin : ∀ text, o.status ≠ .skipped ∧ d = some text ↔ ruin text) :
    o.Uncaptured ruin { o with diagnostics := d } where
  component := rfl
  status := rfl
  duration := rfl
  attempts := rfl
  skipped hskipped := hd.resolve_right fun h ↦ h.1 hskipped
  ruined text h := by
    obtain ⟨-, rfl⟩ := (hruin text).2 h
    obtain h | ⟨-, h⟩ := hd
    · exact ⟨h.symm, rfl⟩
    · cases h
  other htested h := by
    cases d with
    | none => rfl
    | some text => exact absurd ((hruin text).1 ⟨htested, rfl⟩) (h text)

/-- A run has ended as another one without captured output, in reports on some components. -/
structure Run.Ended.Uncaptured {σ : Type} (limit : Option Float) (components : List String)
    (e e' : Ended σ) : Prop where
  report : ∃ report report' : Report, e.report = .ok report ∧ e'.report = .ok report' ∧
    report.outcomes.map (·.component) = components ∧
    List.Forall₂ (fun o ↦ o.Uncaptured fun text ↦ e.journal.EndsInMishap limit o.component text)
      report.outcomes report'.outcomes
  mishaps (c text : String) :
    e'.journal.EndsInMishap limit c text ↔ e.journal.EndsInMishap limit c text

section Impartial

variable {σ ι : Type} {runner : Runner σ ι} {shared : σ → σ → Prop} {invocation : ι → ι → Prop}
  {told : ι → Prop} {budget : ι → Nat} {fit : ι → List Nat → Prop}

/-- Reports on what two runs did alike, if the diagnostics of the second are those of mishaps. -/
theorem Run.Ended.Uncaptured.of_outcomes {limit : Option Float} {components : List String} {e e' : Ended σ}
    {report report' : Report} (hreport : e.report = .ok report) (hreport' : e'.report = .ok report')
    (hcomponents : report.outcomes.map (·.component) = components)
    (houtcomes : List.Forall₂ (captureBond shared invocation).Outcomes report.outcomes report'.outcomes)
    (hremarks : e'.journal.remarks = e.journal.remarks)
    (hdiagnostics : ∀ o ∈ report'.outcomes, ∀ text, o.status ≠ .skipped ∧ o.diagnostics = some text ↔
      e'.journal.EndsInMishap limit o.component text) : e.Uncaptured limit components e' := by
  have hmishaps (c text : String) :
      e'.journal.EndsInMishap limit c text ↔ e.journal.EndsInMishap limit c text := by
    rw [Journal.EndsInMishap, Journal.EndsInMishap, hremarks]
  refine ⟨⟨report, report', hreport, hreport', hcomponents, ?_⟩, hmishaps⟩
  refine ((List.forall₂_and_left _ _).2 ⟨hdiagnostics, houtcomes.flip⟩).flip.imp ?_
  intro o o' h
  have hboth : (captureBond shared invocation).Outcomes o o' := h.2
  cases hboth with
  | mk hd => exact .of_diagnostics hd fun text ↦ (h.1 text).trans (hmishaps _ text)

/-- An impartial runner whose runs end in a report. -/
structure Runner.Capturable (runner : Runner σ ι) (shared : σ → σ → Prop) (invocation : ι → ι → Prop)
    (told : ι → Prop) (budget : ι → Nat) (fit : ι → List Nat → Prop) : Prop where
  impartial : runner.Impartial shared invocation
  discreet : runner.IsDiscreet
  steadfast : runner.Steadfast told
  frugal : runner.Frugal budget
  restless : runner.Restless fit

/-- Without captured output, the run of such a runner ends in the same report, diagnostics apart. -/
theorem Runner.Capturable.execute (h : runner.Capturable shared invocation told budget fit) {x : σ}
    (hx : shared x x) {components : List String} (hnodup : components.Nodup) (policy : Policy)
    {cancellation : Cancellation} {now : Float} (hnow : IsInstant now)
    (hdelays : ∀ delay ∈ cancellation.delays, 0 ≤ delay) :
    (Run.execute { runner, policy := policy.capturing true } cancellation now x components).Uncaptured
      policy.timeout components
      (Run.execute { runner, policy := policy.capturing false } cancellation now x components) := by
  have quiet (policy : Policy) : Setup.IsQuiet { runner, policy } := isQuiet_default runner policy
  have hreports (policy : Policy) := execute_reports (quiet policy) h.steadfast
    (final_isDone_of_restless (quiet policy) h.frugal h.restless hnow hdelays x components)
  obtain ⟨report, hreport, hcomponents⟩ := hreports (policy.capturing true)
  obtain ⟨report', hreport', -⟩ := hreports (policy.capturing false)
  have halike := (final_alike (h.impartial.resembles h.discreet policy) hx cancellation now
    components).resolve_right fun hparting ↦ hparting.1
  obtain ⟨-, houtcomes, hremarks⟩ := ended_alike halike
  exact .of_outcomes hreport hreport' hcomponents (houtcomes report report' hreport hreport') hremarks
    fun o ho ↦ execute_diagnostics (quiet (policy.capturing false)) rfl h.discreet cancellation now x hnodup
      hreport' ho

end Impartial

/-! ## Rehearsed runners -/

/-- A cue under which no component counts as skipped, and no invocation is interrupted on its own. -/
structure Cue.IsProper (cue : Cue) : Prop where
  ending : cue.ending.Agree cue.ending
  steady : cue.ending ≠ .interrupted
  aftermath : ∀ after ∈ cue.aftermath, after.ending.Agree after.ending

namespace Rehearsal

/-- The record of a runner without whether the output was captured. -/
def Shared.plain (s : Shared) : Shared :=
  { s with calls := s.calls.map fun call ↦ { call with capture := false } }

theorem Shared.count_plain (s : Shared) (c : String) : s.plain.count c = s.count c := by
  simp [Shared.count, Shared.plain, List.countP_map, Function.comp_def]

theorem Shared.plain_enter (s : Shared) (call : Call) :
    (s.enter call).plain = s.plain.enter { call with capture := false } := by
  simp [Shared.enter, Shared.plain]

/-- An invocation of a proper cue. -/
def IsProper : Invocation → Prop
  | .waiting cue => cue.IsProper
  | .leaving ending => ending.Agree ending

/-- An invocation that was told of an interruption, or will be interrupted on its own. -/
def Told : Invocation → Prop
  | .waiting cue => cue.ending = .interrupted
  | .leaving _ => True

/-- Records that differ in whether the output was captured at most. -/
def Records (s s' : Shared) : Prop :=
  s'.plain = s.plain

/-- One and the same invocation, of a proper cue. -/
inductive Invocations : Invocation → Invocation → Prop
  | mk {v : Invocation} (proper : IsProper v) : Invocations v v

theorem resume_notes (s : Shared) (v : Invocation) (wake : Wake) : (resume s v wake).2.notes = [] := by
  unfold resume
  split
  · rfl
  · split
    · rfl
    · split <;> rfl
  · rfl
  · rfl

theorem sleep_givesIn {told : Invocation → Prop} {alarm : Nat} {delay : Float} {v : Invocation} :
    Reply.GivesIn told { next := sleep alarm delay v } ↔ told v := by
  unfold sleep
  split <;> rfl

theorem sleep_next {b : Bond Shared Invocation} {v v' : Invocation} (h : b.invocation v v') (alarm : Nat)
    (delay : Float) : b.Next (sleep alarm delay v) (sleep alarm delay v') := by
  unfold sleep
  split
  · exact .yields h
  · exact .waits h _ _

end Rehearsal

section Rehearsed

open Rehearsal

variable {cue : String → Nat → Cue}

theorem Runner.rehearsed_discreet (cue : String → Nat → Cue) : (Runner.rehearsed cue).IsDiscreet where
  start _ _ _ _ _ hn := absurd hn List.not_mem_nil
  resume shared _ invocation wake n hn := by
    change n ∈ (Rehearsal.resume shared invocation wake).2.notes at hn
    rw [resume_notes] at hn
    exact absurd hn List.not_mem_nil

theorem Runner.rehearsed_steadfast (proper : ∀ c n, (cue c n).IsProper) :
    (Runner.rehearsed cue).Steadfast Told where
  start shared _ component _ h := (proper component _).steady (sleep_givesIn.1 h)
  resume shared now invocation wake h := by
    change (Rehearsal.resume shared invocation wake).2.GivesIn Told at h
    obtain ⟨rung, _ | _⟩ := wake
    · cases invocation with
      | waiting cue => exact .inl h
      | leaving ending => exact .inl trivial
    · exact .inr rfl

theorem Runner.rehearsed_impartial (proper : ∀ c n, (cue c n).IsProper) :
    (Runner.rehearsed cue).Impartial Records Invocations where
  start {x x'} h now component := by
    have hcount : x'.count component = x.count component := by
      rw [← Shared.count_plain, h, Shared.count_plain]
    change Shared.plain (x'.enter _) = Shared.plain (x.enter _) ∧ Bond.Next _ (sleep 0 _ _) (sleep 0 _ _)
    rw [Shared.plain_enter, Shared.plain_enter, h, hcount]
    have hproper : Invocations (.waiting (cue component (x.count component))) _ :=
      .mk (proper component (x.count component))
    exact ⟨rfl, sleep_next hproper 0 _⟩
  resume {x x' v _} h hv now wake := by
    obtain ⟨hproper⟩ := hv
    have hleave : Records x.leave x'.leave := congrArg Shared.leave h
    change Records (Rehearsal.resume x v wake).1 (Rehearsal.resume x' v wake).1 ∧
      Bond.Next _ (Rehearsal.resume x v wake).2.next (Rehearsal.resume x' v wake).2.next
    unfold Rehearsal.resume
    split
    · exact ⟨hleave, .ends hproper.ending⟩
    · next cue _ =>
      split
      · exact ⟨hleave, .ends .interrupted⟩
      · next after hafter =>
        have hending := hproper.aftermath after hafter
        split
        · exact ⟨hleave, .ends hending⟩
        · have hleaving : Invocations (.leaving after.ending) (.leaving after.ending) := .mk hending
          exact ⟨h, sleep_next hleaving 1 _⟩
    · exact ⟨hleave, .ends hproper⟩
    · exact ⟨hleave, .ends .interrupted⟩

end Rehearsed

/-! ## Tools -/

namespace Job.Execution

/-- An execution that passes nothing on. -/
def silenced : Execution → Execution
  | .reading c _ read next rest => .reading c false read next rest
  | e => e

/-- What comes next differs in what is passed on at most. -/
def Same (next next' : Activity.Next Execution Result) : Prop :=
  next'.map silenced id = next.map silenced id

theorem Remark.not_isRemark {n : Note} (h : Remark n) : ¬ n.IsRemark := by
  cases h with
  | log level text => exact fun h ↦ Channel.noConfusion h.1
  | output | terminate => exact id

theorem readOn_same (c : Child) (passOn passOn' : Bool) (read : List (List UInt8))
    (rest : List (Float × List UInt8)) :
    Same (readOn c passOn read rest).next (readOn c passOn' read rest).next := by
  induction rest generalizing read with
  | nil => rfl
  | cons piece rest ih =>
    unfold readOn
    split
    · split
      · rfl
      · exact ih _
    · rfl

theorem start_same (b : Behaviour) (launch : Launch) (passOn passOn' : Bool) :
    Same (start b launch passOn).next (start b launch passOn').next := by
  unfold start
  dsimp only
  split
  · rfl
  · exact readOn_same _ _ _ _ _

theorem resume_same {e e' : Execution} (h : e'.silenced = e.silenced) (wake : Wake) :
    Same (e.resume wake).next (e'.resume wake).next := by
  cases e with
  | reading c passOn read next rest =>
    cases e' with
    | reading c' passOn' read' next' rest' =>
      obtain ⟨rfl, -, rfl, rfl, rfl⟩ := reading.inj h
      rw [resume, resume]
      split
      · rfl
      · exact readOn_same _ _ _ _ _
    | exiting | ending => cases h
  | exiting c output =>
    obtain rfl : e' = .exiting c output := by cases e' <;> cases h; rfl
    rfl
  | ending c =>
    obtain rfl : e' = .ending c := by cases e' <;> cases h; rfl
    rfl

end Job.Execution

namespace Tool

/-- A tool that counts no component as skipped and does not remark on the run. -/
structure IsProper (t : Tool) : Prop where
  judge (code : Int) (output : String) : t.judge code output ≠ .skipped
  endNotes (component : String) (code : Int) : ∀ n ∈ t.endNotes component code, ¬ n.IsRemark

/-- Invocations for one component that differ in whether the output is captured at most. -/
def Invocations (i i' : Invocation) : Prop :=
  i'.component = i.component ∧ i'.execution.silenced = i.execution.silenced

variable {t : Tool}

theorem ending_agree (proper : t.IsProper) (capture capture' : Bool) (result : Job.Result) :
    (t.ending capture result).Agree (t.ending capture' result) := by
  unfold ending
  split
  · exact .answered (proper.judge _ _) _ _
  · split
    · exact .answered (show Status.errored ≠ .skipped by decide) _ _
    · exact .raised _
  · exact .interrupted

theorem reply_next (proper : t.IsProper) (component : String) (capture capture' : Bool)
    {r r' : Reply Job.Execution Job.Result} (h : Job.Execution.Same r.next r'.next) :
    (captureBond (@Eq Nat) Invocations).Next (t.reply component capture r).next
      (t.reply component capture' r').next := by
  obtain ⟨notes, next⟩ := r
  obtain ⟨notes', next'⟩ := r'
  cases next with
  | ends result =>
    obtain rfl : next' = .ends result := by cases next' <;> cases h; rfl
    exact .ends (ending_agree proper capture capture' result)
  | yields e =>
    cases next' with
    | yields e' =>
      have hsame : Invocations ⟨component, capture, e⟩ ⟨component, capture', e'⟩ :=
        ⟨rfl, Activity.Next.yields.inj h⟩
      exact .yields hsame
    | ends | waits => cases h
  | waits e keep alarms =>
    cases next' with
    | waits e' keep' alarms' =>
      obtain ⟨hexecution, rfl, rfl⟩ := Activity.Next.waits.inj h
      have hsame : Invocations ⟨component, capture, e⟩ ⟨component, capture', e'⟩ := ⟨rfl, hexecution⟩
      exact .waits hsame _ _
    | ends | yields => cases h

theorem runner_impartial (proper : t.IsProper) (around : Surroundings) :
    (t.runner around).Impartial Eq Invocations where
  start {x x'} h now component := by
    subst h
    exact ⟨rfl, reply_next proper component true false (Job.Execution.start_same _ _ _ _)⟩
  resume {x x' v v'} h hv now wake := by
    subst h
    obtain ⟨hcomponent, hexecution⟩ := hv
    refine ⟨rfl, ?_⟩
    change (captureBond Eq Invocations).Next (t.resume v wake).next (t.resume v' wake).next
    rw [Tool.resume, Tool.resume, hcomponent]
    exact reply_next proper v.component _ _ (Job.Execution.resume_same hexecution wake)

theorem runner_discreet (proper : t.IsProper) (around : Surroundings) :
    (t.runner around).IsDiscreet := by
  have hafter (component : String) (next : Activity.Next Job.Execution Job.Result) :
      ∀ n ∈ t.notesAfter component next, ¬ n.IsRemark := by
    unfold notesAfter
    split
    · exact proper.endNotes component _
    · nofun
  refine ⟨fun _ _ component _ n hn ↦ ?_, fun _ _ i wake n hn ↦ ?_⟩
  · obtain hn | hn := List.mem_append.1 hn
    · obtain h | rfl := Job.Execution.start_notes _ _ _ n hn
      · exact h.not_isRemark
      · exact id
    · exact hafter component _ n hn
  · obtain hn | hn := List.mem_append.1 hn
    · exact (Job.Execution.resume_notes _ wake n hn).not_isRemark
    · exact hafter i.component _ n hn

end Tool

/-! ## Runs of scripts and of tools -/

/-- A script of results and failures that come at some time. -/
structure Script.IsPlayable (script : Script) : Prop where
  delay (component : String) : (script.delay component).isNaN = false
  answered (component : String) : ∀ ending ∈ script.entries component,
    (∃ answer, ending = .answered answer ∧ answer.status ∈ [.passed, .failed, .errored]) ∨
      ∃ failure, ending = .raised failure

namespace Script

variable {script : Script}

theorem Orderly.isPlayable (orderly : script.Orderly) : script.IsPlayable where
  delay component := by
    cases h : (script.delay component).isNaN with
    | false => rfl
    | true => exact absurd (orderly.delay component) (not_le_of_isNaN h 0).2
  answered := orderly.answered

theorem IsPlayable.cue_isTimely (playable : script.IsPlayable) (c : String) (n : Nat) :
    (script.cue c n).IsTimely where
  delay := playable.delay c
  aftermath := nofun

theorem IsPlayable.cue_isProper (playable : script.IsPlayable) (c : String) (n : Nat) :
    (script.cue c n).IsProper := by
  have hending : (script.cue c n).ending.Agree (script.cue c n).ending ∧
      (script.cue c n).ending ≠ .interrupted := by
    unfold Script.cue
    cases hentry : Script.entry? (script.entries c) n with
    | none => exact ⟨.answered (show Status.passed ≠ .skipped by decide) _ _, nofun⟩
    | some ending =>
      obtain ⟨answer, rfl, hstatus⟩ | ⟨failure, rfl⟩ :=
        playable.answered c ending (List.mem_of_getElem? hentry)
      · have htested : answer.status ≠ .skipped := fun h ↦ by simp [h] at hstatus
        exact ⟨.answered htested _ _, nofun⟩
      · exact ⟨.raised failure, nofun⟩
  exact ⟨hending.1, hending.2, nofun⟩

theorem IsPlayable.capturable (playable : script.IsPlayable) :
    (Runner.scripted script).Capturable Rehearsal.Records Rehearsal.Invocations Rehearsal.Told
      Rehearsal.budget Rehearsal.Fit where
  impartial := Runner.rehearsed_impartial playable.cue_isProper
  discreet := Runner.rehearsed_discreet _
  steadfast := Runner.rehearsed_steadfast playable.cue_isProper
  frugal := Runner.rehearsed_frugal _
  restless := Runner.rehearsed_restless playable.cue_isTimely

end Script

theorem Tool.capturable {t : Tool} (proper : t.IsProper) {around : Surroundings}
    (bounded : around.IsBounded) (timely : around.IsTimely) :
    (t.runner around).Capturable Eq Tool.Invocations (fun i ↦ i.execution.IsEnding)
      (fun i ↦ i.execution.budget) fun i ↦ i.execution.Fit where
  impartial := t.runner_impartial proper around
  discreet := t.runner_discreet proper around
  steadfast := t.runner_steadfast around
  frugal := t.runner_frugal bounded
  restless := t.runner_restless timely

theorem Cargo.tool_isProper (c : Cargo) (executable : String) : (c.tool executable).IsProper where
  judge code output := by
    change Cargo.judge code output ≠ .skipped
    unfold Cargo.judge
    split
    · decide
    · split <;> decide
  endNotes _ _ := nofun

theorem Command.tool_isProper (c : Command) (executable : String) : (c.tool executable).IsProper where
  judge code output := by
    change Command.judge code output ≠ .skipped
    unfold Command.judge
    split <;> decide
  endNotes component code n hn := by
    rw [List.mem_singleton.1 hn]
    simp [Note.IsRemark, Note.debug]

theorem Configured.tool_isProper (c : Configured) (executable : String) :
    (c.tool executable).IsProper := by
  cases c with
  | cargo c => exact c.tool_isProper executable
  | command c => exact c.tool_isProper executable

/-- A process that says something and fails. -/
def Job.Behaviour.failing : Behaviour :=
  { output := [(0.5, [0x6e, 0x6f])], exitDelay := 1.0, code := 3 }

theorem Job.Behaviour.failing_isTimely : Behaviour.failing.IsTimely where
  output := by decide +kernel
  exit := by decide +kernel
  terminate := by decide +kernel

/-- Surroundings in which every process fails. -/
def Surroundings.failing : Surroundings where
  files := { file? _ := none, isDirectory _ := false }
  environment := []
  program name := if name = "tool" then some "/bin/tool" else none
  behaviour _ := .failing
  pieces := 1

namespace Run

variable {registry : Registry} {components : List String} {cancellation : Cancellation} {now : Float}

/-- Whether output is captured has no influence on what is reported, diagnostics apart. -/
theorem execute_uncaptured (policy : Policy) (hlist : registry.list = .ok components) (hnow : IsInstant now)
    (hdelays : ∀ delay ∈ cancellation.delays, 0 ≤ delay) :
    (∀ (script : Script) (shared : Rehearsal.Shared), script.IsPlayable →
      (execute (script.setup (policy.capturing true)) cancellation now shared components).Uncaptured
        policy.timeout components
        (execute (script.setup (policy.capturing false)) cancellation now shared components)) ∧
    ∀ (configured : Configured) (executable : String) (around : Surroundings) (started : Nat),
      around.IsBounded → around.IsTimely →
      let runner := (configured.tool executable).runner around
      (execute { runner, policy := policy.capturing true } cancellation now started components).Uncaptured
        policy.timeout components
        (execute { runner, policy := policy.capturing false } cancellation now started components) := by
  have hnodup := Registry.nodup_of_list hlist
  constructor
  · intro script shared playable
    exact playable.capturable.execute rfl hnodup policy hnow hdelays
  · intro configured executable around started bounded timely
    have capturable := Tool.capturable (configured.tool_isProper executable) bounded timely
    exact capturable.execute rfl hnodup policy hnow hdelays

theorem execute_uncaptured_failing :
    let policy : Policy := { retries := 1, timeout := some 0.5 }
    let runner := ((Configured.command ⟨"tool", [], none, []⟩).tool "/bin/tool").runner .failing
    (⟨["alpha", "beta"]⟩ : Registry).list = .ok ["alpha", "beta"] ∧
      (execute (Script.failing.setup (policy.capturing true)) (.after [2.0]) 0.0 {}
        ["alpha", "beta"]).Uncaptured (some 0.5) ["alpha", "beta"]
        (execute (Script.failing.setup (policy.capturing false)) (.after [2.0]) 0.0 {}
          ["alpha", "beta"]) ∧
      (execute { runner, policy := policy.capturing true } (.after [2.0]) 0.0 0
        ["alpha", "beta"]).Uncaptured (some 0.5) ["alpha", "beta"]
        (execute { runner, policy := policy.capturing false } (.after [2.0]) 0.0 0 ["alpha", "beta"]) :=
  have hlist : (⟨["alpha", "beta"]⟩ : Registry).list = .ok ["alpha", "beta"] := by decide +kernel
  have hdelays : ∀ delay ∈ (Cancellation.after [2.0]).delays, 0 ≤ delay := by decide +kernel
  have ⟨hscript, htool⟩ := execute_uncaptured { retries := 1, timeout := some 0.5 } hlist
    (show IsInstant 0.0 by decide +kernel) hdelays
  ⟨hlist, hscript Script.failing {} Script.failing_orderly.isPlayable,
    htool (.command ⟨"tool", [], none, []⟩) "/bin/tool" .failing 0 (fun _ ↦ le_rfl)
      fun _ ↦ Job.Behaviour.failing_isTimely⟩

end Run

end Testbed
