import Testbed.Proofs.Run.Likeness
import Testbed.Proofs.Run.Notes
import Testbed.Proofs.Run.Reports

/-!
# Mishaps

An attempt can run out of time, or its runner can crash.  The log tells of such a mishap when the
attempt ends; if the component is reported to have finished right after that, it was the last attempt.
When no output is captured, the outcomes of tested components hold diagnostics for no other reason.
-/

namespace Testbed

/-- A runner whose notes are no remarks on the run. -/
structure Runner.IsDiscreet {σ ι : Type} (runner : Runner σ ι) : Prop where
  start (shared : σ) (now : Float) (component : String) (capture : Bool) :
    ∀ n ∈ (runner.start shared now component capture).2.notes, ¬ n.IsRemark
  resume (shared : σ) (now : Float) (invocation : ι) (wake : Wake) :
    ∀ n ∈ (runner.resume shared now invocation wake).2.notes, ¬ n.IsRemark

namespace Run

/-- A note tells of a mishap in the attempt at a component; a text says it in the report. -/
inductive Mishap (limit : Option Float) (c : String) : String → Note → Prop
  | late : Mishap limit c ("Timed out after " ++ Decimal.generalText (limit.getD 0.0) ++ "s")
      (.warning .run
        (c ++ " timed out after " ++ Decimal.generalText (limit.getD 0.0) ++ "s"))
  | crash (failure : Failure) : Mishap limit c failure.text
      (.log {
        level := .error
        channel := .run
        text := "Runner crashed for " ++ c ++ ": " ++ failure.text
        trace := some failure })

/-- A note tells that a component has finished. -/
def Finishes (c : String) (n : Note) : Prop :=
  ∃ event : Event, n = .progress event ∧ event.component = c ∧ event.phase = .finished

end Run

open Run in
/-- The work on a component ended in a mishap: the next remark on the run is that it has finished. -/
def Journal.EndsInMishap (limit : Option Float) (c text : String) (j : Journal) : Prop :=
  ∃ e e', [e, e'] <:+: j.remarks ∧ Mishap limit c text e.note ∧ Finishes c e'.note

namespace Run

variable {σ ι : Type} {setup : Setup σ ι} {limit : Option Float} {i : Nat} {c c' text text' : String}
  {s s' s'' : State σ ι} {w : Worker ι} {reply : Reply ι Ending} {n : Note} {e : Entry} {r : Journal}

/-! ## Notes -/

/-- A note that tells of no mishap. -/
def Harmless (limit : Option Float) (n : Note) : Prop :=
  ∀ c text, ¬ Mishap limit c text n

theorem Harmless.of_level {line : LogLine} (hwarning : line.level ≠ .warning)
    (herror : line.level ≠ .error) : Harmless limit (.log line) := by
  rintro c text (_ | _)
  · exact hwarning rfl
  · exact herror rfl

/-- A warning that ends otherwise than one about a time limit. -/
theorem Harmless.of_ending {channel : Channel} {text ending : String} {a : Char}
    (h : ending.toList.getLast? = some a) (ha : a ≠ 's') :
    Harmless limit (.warning channel (text ++ ending)) := by
  intro c said hmishap
  generalize hn : Note.warning channel (text ++ ending) = n at hmishap
  cases hmishap with
  | late =>
    have hlast := congrArg (·.toList.getLast?) (LogLine.mk.inj (Note.log.inj hn)).2.2.1
    rw [String.toList_append, List.getLast?_append, h, String.toList_append] at hlast
    exact ha (Option.some.inj (hlast.trans List.getLast?_concat))
  | crash failure => simp [Note.warning] at hn

theorem Harmless.progress (event : Event) : Harmless limit (.progress event) := by
  rintro c text (_ | _)

theorem Harmless.of_not_isRemark (h : ¬ n.IsRemark) : Harmless limit n := by
  rintro c text (_ | _)
  · exact h ⟨rfl, .inl rfl⟩
  · exact h ⟨rfl, .inr rfl⟩

/-- A note tells of one mishap. -/
theorem Mishap.text_unique (h : Mishap limit c text n) (h' : Mishap limit c text' n) :
    text = text' := by
  generalize hn : n = n' at h'
  cases h with
  | late =>
    cases h' with
    | late => rfl
    | crash failure => simp [Note.warning] at hn
  | crash failure =>
    cases h' with
    | late => simp [Note.warning] at hn
    | crash failure' =>
      obtain ⟨-, rfl⟩ : _ ∧ failure = failure' := by simpa using hn
      rfl

theorem Mishap.isRemark (h : Mishap limit c text n) : n.IsRemark := by
  cases h with
  | late => exact ⟨rfl, .inl rfl⟩
  | crash failure => exact ⟨rfl, .inr rfl⟩

theorem finishes_iff {event : Event} (h : event.phase = .finished) :
    Finishes c (.progress event) ↔ event.component = c := by
  simp [Finishes, h]

/-! ## Remarks, the last one first -/

theorem note_remarks (h : n.IsRemark) (s : State σ ι) :
    (s.note n).journal.remarks = ⟨s.now, n⟩ :: s.journal.remarks :=
  Journal.remarks_cons_of h s.journal

theorem note_remarks_of_not (h : ¬ n.IsRemark) (s : State σ ι) :
    (s.note n).journal.remarks = s.journal.remarks :=
  Journal.remarks_cons_of_not h s.journal

/-- Of remarks that come last first, those on a component end in a mishap. -/
def Ruined (limit : Option Float) (c text : String) (r : Journal) : Prop :=
  ∃ e e', [e', e] <:+: r ∧ Mishap limit c text e.note ∧ Finishes c e'.note

theorem not_ruined_nil : ¬ Ruined limit c text [] := by
  rintro ⟨e, e', h, -⟩
  simp at h

theorem ruined_cons_cons {e' : Entry} : Ruined limit c text (e' :: e :: r) ↔
    Mishap limit c text e.note ∧ Finishes c e'.note ∨ Ruined limit c text (e :: r) := by
  simp only [Ruined, List.infix_cons_iff (a := e'), List.cons_prefix_cons, List.nil_prefix, and_true,
    or_and_right, exists_or]
  refine or_congr_left ⟨?_, fun h ↦ ⟨e, e', ⟨rfl, rfl⟩, h⟩⟩
  rintro ⟨e₁, e₂, ⟨rfl, rfl⟩, h⟩
  exact h

/-- The last remark tells of no mishap. -/
def Calm (limit : Option Float) (r : Journal) : Prop :=
  ∀ e ∈ r.head?, Harmless limit e.note

theorem Calm.cons (h : Harmless limit e.note) : Calm limit (e :: r) := by
  intro e' he'
  obtain rfl : e = e' := by simpa using he'
  exact h

/-- What is remarked next tells of no end in a mishap. -/
theorem Calm.ruined_cons (h : Calm limit r) :
    Ruined limit c text (e :: r) ↔ Ruined limit c text r := by
  cases r with
  | nil =>
    refine iff_of_false ?_ not_ruined_nil
    rintro ⟨e₁, e₂, h, -⟩
    simpa using h.length_le
  | cons e' r => exact ruined_cons_cons.trans (or_iff_right fun h' ↦ h e' rfl c text h'.1)

theorem Calm.append (h : Calm limit r) {new : Journal} (hnew : ∀ e ∈ new, Harmless limit e.note) :
    Calm limit (new ++ r) ∧ ∀ c text, Ruined limit c text (new ++ r) ↔ Ruined limit c text r := by
  induction new with
  | nil => exact ⟨h, fun _ _ ↦ .rfl⟩
  | cons e new ih =>
    obtain ⟨he, hnew⟩ := List.forall_mem_cons.1 hnew
    obtain ⟨hcalm, hruined⟩ := ih hnew
    exact ⟨.cons he, fun c text ↦ hcalm.ruined_cons.trans (hruined c text)⟩

theorem endsInMishap_reverse {j : Journal} :
    Journal.EndsInMishap limit c text j.reverse ↔ Ruined limit c text j.remarks := by
  have hremarks : Journal.remarks j.reverse = j.remarks.reverse := by
    rw [Journal.remarks, Journal.remarks, List.filter_reverse]
  simp only [Journal.EndsInMishap, Ruined, hremarks]
  refine exists_congr fun e ↦ exists_congr fun e' ↦ and_congr_left fun _ ↦ ?_
  rw [← List.reverse_infix, List.reverse_reverse]
  rfl

/-! ## Stretches without a mishap -/

/-- No mishap comes last, and none has ended the work on a component in between. -/
structure Placid (limit : Option Float) (s s' : State σ ι) : Prop where
  calm : Calm limit s'.journal.remarks
  ruined (c text : String) :
    Ruined limit c text s'.journal.remarks ↔ Ruined limit c text s.journal.remarks

theorem Placid.of_grows (hs : Calm limit s.journal.remarks) (h : Grows (Harmless limit) s s') :
    Placid limit s s' := by
  obtain ⟨new, hnew, hharmless⟩ := h
  have hremarks : ∀ e ∈ Journal.remarks new, Harmless limit e.note :=
    fun e he ↦ hharmless e (List.mem_of_mem_filter he)
  obtain ⟨hcalm, hruined⟩ := hs.append hremarks
  rw [← Journal.remarks_append, ← hnew] at hcalm hruined
  exact ⟨hcalm, hruined⟩

theorem Placid.of_journal (hs : Calm limit s.journal.remarks) (h : s'.journal = s.journal) :
    Placid limit s s' :=
  .of_grows hs (.of_journal h)

/-! ## Outcomes that tell something -/

/-- The outcome of tested work says a text. -/
def Slot.Tells (slot : Slot ι) (text : String) : Prop :=
  ∃ o, (slot = .settled o ∨ slot.finish? = some (.outcome o)) ∧ o.status ≠ .skipped ∧
    o.diagnostics = some text

namespace Slot

variable {slot slot' : Slot ι}

theorem not_tells_running (h : ∀ f, w.stage ≠ .finished f) : ¬ (Slot.running w).Tells text := by
  rintro ⟨o, ho | ho, -⟩
  · cases ho
  · obtain ⟨_, hw, hf⟩ := finish?_eq_some.1 ho
    exact h _ (running.inj hw ▸ hf)

theorem not_tells_of_isActive (h : slot.isActive = true) : ¬ slot.Tells text := by
  rcases slot with _ | ⟨_, _, _, _, _ | _ | _⟩ | _ <;> simp [Tells, isActive, finish?] at h ⊢

theorem tells_interrupted : slot.interrupted.Tells text ↔ slot.Tells text := by
  simp only [Tells, interrupted_eq_settled, finish?_interrupted]

theorem tells_settle : slot.settle.Tells text ↔ slot.Tells text := by
  rcases slot with _ | ⟨_, _, _, _, _ | _ | _ | _ | _⟩ | _ <;> simp [Tells, settle, finish?]

theorem tells_drained : (slot.drained c).Tells text ↔ slot.Tells text := by
  rcases slot with _ | ⟨_, _, _, _, _ | _ | _ | _ | _⟩ | _ <;>
    simp [Tells, drained, finish?, skipped]

theorem tells_skip {reason : String} : (slot.skip c reason).Tells text ↔ slot.Tells text := by
  rcases slot with _ | _ | _ <;> simp [Tells, skip, finish?, skipped]

/-- The coordinator makes no outcome say anything else. -/
theorem Steers.tells (h : Slot.Steers slot slot') : slot'.Tells text ↔ slot.Tells text := by
  cases h with
  | launches => simp [Tells, finish?]
  | settles => exact tells_settle

theorem Closes.tells (h : Slot.Closes c slot slot') : slot'.Tells text ↔ slot.Tells text := by
  cases h with
  | interrupts => exact tells_interrupted
  | drains => exact tells_drained
  | skips => exact tells_skip

end Slot

/-- A turn of a component that is no end of work makes no outcome say anything else. -/
theorem Moves.tells (h : Moves i s s') {P : String → String → Prop}
    (hs : s.All fun c slot ↦ ∀ text, slot.Tells text ↔ P c text) :
    s'.All fun c slot ↦ ∀ text, slot.Tells text ↔ P c text := by
  intro p hp text
  obtain ⟨j, hj⟩ := List.mem_iff_getElem?.1 hp
  obtain ⟨f, hf⟩ := h.places
  by_cases hij : i = j
  · subst hij
    rw [hf, List.getElem?_modify_eq] at hj
    obtain ⟨q, hq, rfl⟩ := Option.map_eq_some_iff.1 hj
    have hslot : s.slot? i = some q.slot := congrArg (Option.map Place.slot) hq
    have hslot' : s'.slot? i = some (f q.slot) := by
      rw [State.slot?, hf, List.getElem?_modify_eq, hq]
      rfl
    refine Iff.trans ?_ (hs q (List.mem_of_getElem? hq) text)
    cases hactive : s.isActive i with
    | false =>
      have hsame := Option.some.inj (hslot'.symm.trans ((h.slot hactive).trans hslot))
      rw [hsame]
    | true =>
      have hactive' := h.active.trans hactive
      rw [State.isActive, hslot] at hactive
      rw [State.isActive, hslot'] at hactive'
      exact iff_of_false (Slot.not_tells_of_isActive hactive') (Slot.not_tells_of_isActive hactive)
  · rw [hf, List.getElem?_modify_ne _ _ hij] at hj
    exact hs p (List.mem_of_getElem? hj) text

/-! ## What becomes of an attempt -/

/-- The judgement on an attempt whose output is not captured, with what is noted about it. -/
inductive Appraisal (limit : Option Float) (c : String) : Assessment → List Note → Prop
  | interrupted : Appraisal limit c .interrupted []
  | plain (status : Status) (retryable : Bool) : Appraisal limit c (.counted ⟨status, none⟩ retryable) []
  | mishap {text : String} {n : Note} (h : Mishap limit c text n) (retryable : Bool) :
    Appraisal limit c (.counted ⟨.errored, some text⟩ retryable) [n]

theorem assess_appraisal {policy : Policy} (hcapture : policy.captureOutput = false) (c : String)
    (expired : Bool) (outstanding : Nat) (ending : Ending) :
    Appraisal policy.timeout c (assess policy expired outstanding ending)
      (assessmentNotes policy expired outstanding c ending) := by
  unfold assess assessmentNotes
  cases ending with
  | answered answer =>
    dsimp only
    rw [hcapture]
    exact .plain answer.status true
  | raised failure =>
    dsimp only
    split
    · exact .mishap .late false
    · exact .mishap (.crash failure) true
  | interrupted =>
    dsimp only
    split
    · exact .mishap .late false
    · exact .interrupted

/-- A turn of a component told of a mishap that ended the work only if the outcome says it. -/
structure Accounted (limit : Option Float) (i : Nat) (c : String) (s s' : State σ ι) : Prop where
  calm : Calm limit s'.journal.remarks
  others (c' text : String) (h : c' ≠ c) :
    Ruined limit c' text s'.journal.remarks ↔ Ruined limit c' text s.journal.remarks
  own : ∃ slot, s'.slot? i = some slot ∧ ∀ text, Ruined limit c text s'.journal.remarks ↔
    slot.Tells text ∨ Ruined limit c text s.journal.remarks

theorem Placid.accounted (h : Placid limit s s') (h' : Accounted limit i c s' s'') :
    Accounted limit i c s s'' where
  calm := h'.calm
  others c' text hne := (h'.others c' text hne).trans (h.ruined c' text)
  own := by
    obtain ⟨slot, hslot, hown⟩ := h'.own
    exact ⟨slot, hslot, fun text ↦ (hown text).trans (or_congr_right (h.ruined c text))⟩

/-- Work that has not ended in an outcome. -/
theorem Placid.accounted_of_not_tells (h : Placid limit s s') {slot : Slot ι}
    (hslot : s'.slot? i = some slot) (hslot' : ∀ text, ¬ slot.Tells text) :
    Accounted limit i c s s' where
  calm := h.calm
  others c' text _ := h.ruined c' text
  own := ⟨slot, hslot, fun text ↦ (h.ruined c text).trans (or_iff_right (hslot' text)).symm⟩

section Attempts

variable {slot : Slot ι}

theorem conclude_eq_finish (quiet : setup.IsQuiet) (answer : Answer) (s : State σ ι) :
    conclude setup i c w answer s = finish i w (.outcome (w.outcome c s.now answer))
      (setup.emit s (finishedEvent c w s.now answer.status)).1 := by
  unfold conclude
  dsimp only
  rw [quiet.emit, quiet.emit]
  rfl

theorem conclude_remarks (quiet : setup.IsQuiet) (answer : Answer) (s : State σ ι) :
    (conclude setup i c w answer s).journal.remarks =
      ⟨s.now, .progress (finishedEvent c w s.now answer.status)⟩ :: s.journal.remarks := by
  rw [conclude_eq_finish quiet, finish_eq, quiet.emit]
  dsimp only
  rw [note_remarks (n := .progress _) trivial, note_remarks_of_not (by simp [Note.IsRemark, Note.debug])]
  rfl

theorem conclude_slot? (quiet : setup.IsQuiet) (hslot : s.slot? i = some slot) (answer : Answer) :
    (conclude setup i c w answer s).slot? i =
      some (.running { w with stage := .finished (.outcome (w.outcome c s.now answer)) }) := by
  rw [conclude_eq_finish quiet, quiet.emit]
  exact finish_running hslot w _

/-- The end of work, after what was noted about the last attempt. -/
theorem conclude_accounted (quiet : setup.IsQuiet) (hslot : s.slot? i = some slot)
    (hs : Calm limit s.journal.remarks) {answer : Answer} {notes : List Note} {retryable : Bool}
    (h : Appraisal limit c (.counted answer retryable) notes) :
    Accounted limit i c s (conclude setup i c w answer (s.noteAll notes)) := by
  cases h with
  | plain status =>
    have hremarks := conclude_remarks (i := i) (c := c) (w := w) quiet ⟨status, none⟩ (s.noteAll [])
    refine Placid.accounted_of_not_tells ⟨?_, fun c' text ↦ ?_⟩ (conclude_slot? quiet hslot _)
      fun text ↦ ?_
    · rw [hremarks]
      exact .cons (.progress _)
    · rw [hremarks]
      exact hs.ruined_cons
    · simp [Slot.Tells, Slot.finish?, Worker.outcome]
  | @mishap text n h =>
    have hremarks := conclude_remarks (i := i) (c := c) (w := w) quiet ⟨.errored, some text⟩ (s.note n)
    rw [note_remarks h.isRemark] at hremarks
    have hruined (c' text' : String) : Ruined limit c' text'
        (⟨s.now, .progress (finishedEvent c w s.now .errored)⟩ :: ⟨s.now, n⟩ :: s.journal.remarks) ↔
          Mishap limit c' text' n ∧ c = c' ∨ Ruined limit c' text' s.journal.remarks := by
      rw [ruined_cons_cons, hs.ruined_cons, finishes_iff rfl]
      rfl
    change Accounted limit i c s (conclude setup i c w ⟨.errored, some text⟩ (s.note n))
    have hslot' : (s.note n).slot? i = some slot := hslot
    refine ⟨?_, fun c' text' hne ↦ ?_, _, conclude_slot? quiet hslot' _, fun text' ↦ ?_⟩
    · exact hremarks ▸ Calm.cons (.progress _)
    · exact hremarks ▸ (hruined c' text').trans (or_iff_right fun h ↦ hne h.2.symm)
    · refine hremarks ▸ (hruined c text').trans (or_congr_left ?_)
      simp only [Slot.Tells, Slot.finish?, Worker.outcome, reduceCtorEq, false_or, Option.some.injEq,
        Finish.outcome.injEq, exists_eq_left']
      constructor
      · exact fun h' ↦ ⟨fun herror ↦ (by cases herror), h.text_unique h'.1⟩
      · exact fun h' ↦ ⟨h'.2 ▸ h, trivial⟩

/-- A mishap that is followed by another attempt has not ended the work. -/
theorem retrying_placid (hs : Calm limit s.journal.remarks) {a : Assessment} {notes : List Note}
    (h : Appraisal limit c a notes) (text : String) :
    Placid limit s ((s.noteAll notes).note (.warning .run (text ++ "), retrying"))) := by
  have hharmless : Harmless limit (.warning .run (text ++ "), retrying")) :=
    .of_ending (a := 'g') (by decide) (by decide)
  cases h with
  | interrupted => exact .of_grows hs (.note s hharmless)
  | plain => exact .of_grows hs (.note s hharmless)
  | @mishap said n h =>
    change Placid limit s ((s.note n).note (.warning .run (text ++ "), retrying")))
    have hremarks := note_remarks (n := .warning .run (text ++ "), retrying")) ⟨rfl, .inl rfl⟩ (s.note n)
    rw [note_remarks h.isRemark] at hremarks
    constructor
    · rw [hremarks]
      exact .cons hharmless
    · intro c' text'
      rw [hremarks, ruined_cons_cons, hs.ruined_cons]
      refine or_iff_right fun h ↦ ?_
      obtain ⟨event, hevent, -⟩ := h.2
      cases hevent

/-- What an ended attempt leads to, if any further attempt keeps the account. -/
theorem endAttempt_accounted (quiet : setup.IsQuiet) (hcapture : setup.policy.captureOutput = false)
    {left : Nat} (hslot : s.slot? i = some slot) (hs : Calm setup.policy.timeout s.journal.remarks)
    (hagain : ∀ l, left = l + 1 → ∀ (w : Worker ι) (s : State σ ι), s.slot? i = some slot →
      Calm setup.policy.timeout s.journal.remarks →
        Accounted setup.policy.timeout i c s (attempt setup i c l w s))
    (ending : Ending) : Accounted setup.policy.timeout i c s
      (endAttempt setup i c (further setup i c left) w ending s) := by
  have happraisal := assess_appraisal hcapture c w.released.expired w.released.outstanding ending
  unfold endAttempt
  dsimp only
  generalize assess setup.policy _ _ ending = a at happraisal
  generalize assessmentNotes setup.policy _ _ c ending = notes at happraisal
  cases a with
  | interrupted =>
    cases happraisal
    refine Placid.accounted_of_not_tells (.of_journal hs rfl)
      (finish_running hslot w.released .interrupted) fun text ↦ ?_
    simp [Slot.Tells, Slot.finish?]
  | counted answer retryable =>
    dsimp only
    split
    · cases left with
      | zero => exact conclude_accounted quiet hslot hs happraisal
      | succ left =>
        have hretrying := retrying_placid hs happraisal
          (c ++ " errored (attempt " ++ toString w.released.attempt ++ " of " ++
            toString (setup.policy.retries + 1))
        refine hretrying.accounted (hagain left rfl _ _ ?_ hretrying.calm)
        rw [State.noteAll_eq]
        exact hslot
    · exact conclude_accounted quiet hslot hs happraisal

variable (quiet : setup.IsQuiet) (hcapture : setup.policy.captureOutput = false)
  (discreet : setup.runner.IsDiscreet)
include quiet hcapture discreet

omit hcapture in
theorem attempt_accounted_of {left : Nat} (hslot : s.slot? i = some slot)
    (hs : Calm setup.policy.timeout s.journal.remarks)
    (hreplied : ∀ (reply : Reply ι Ending) (s : State σ ι), s.slot? i = some slot →
      Calm setup.policy.timeout s.journal.remarks → (∀ n ∈ reply.notes, ¬ n.IsRemark) →
        Accounted setup.policy.timeout i c s (replied setup i c left w reply s)) :
    Accounted setup.policy.timeout i c s (attempt setup i c left w s) := by
  obtain ⟨-, -, hplaces, hjournal⟩ :=
    setLimit_frame setup i w.attempt (setup.emit s (startedEvent c w.attempt)).1
  have hstarted : Placid setup.policy.timeout s
      ((setup.emit s (startedEvent c w.attempt)).1.attempting setup i c w) := by
    refine .of_grows hs (Grows.trans ?_ (.of_journal hjournal))
    rw [quiet.emit]
    exact (Grows.note s (.of_level nofun nofun)).trans (.note _ (.progress _))
  rw [attempt_eq_emit quiet]
  refine hstarted.accounted (hreplied _ _ ?_ hstarted.calm (discreet.start _ _ _ _))
  rw [State.slot?, State.attempting, hplaces, quiet.emit]
  exact hslot

/-- Whatever a turn makes of a reply, it keeps the account: by induction on the attempts left. -/
theorem replied_accounted {left : Nat} (hslot : s.slot? i = some slot)
    (hs : Calm setup.policy.timeout s.journal.remarks)
    (hreply : ∀ n ∈ reply.notes, ¬ n.IsRemark) :
    Accounted setup.policy.timeout i c s (replied setup i c left w reply s) := by
  induction left using Nat.strong_induction_on generalizing w reply s with
  | _ left ih =>
    have hnoted : Grows (Harmless setup.policy.timeout) s (s.noteAll reply.notes) :=
      .noteAll s fun n hn ↦ .of_not_isRemark (hreply n hn)
    have hslot' : (s.noteAll reply.notes).slot? i = some slot := by
      rw [State.noteAll_eq]
      exact hslot
    rw [replied, apply]
    cases reply.next with
    | yields v =>
      refine Placid.accounted_of_not_tells ?_
        (setWorker_slot? hslot' { w with stage := .suspended v [] { queued := true } })
        fun text ↦ Slot.not_tells_of_isActive rfl
      exact .of_grows hs (hnoted.trans (.of_journal rfl))
    | waits v keep alarms =>
      dsimp only
      rw [setAll_eq]
      refine Placid.accounted_of_not_tells ?_
        (setWorker_slot? hslot' { w with stage := .suspended v (keep ++ alarms.map (·.1)) {} })
        fun text ↦ Slot.not_tells_of_isActive rfl
      exact .of_grows hs (hnoted.trans (.of_journal rfl))
    | ends ending =>
      dsimp only
      have hended : Placid setup.policy.timeout s { s.noteAll reply.notes with
          timers := dropAllTimers i (s.noteAll reply.notes).timers } :=
        .of_grows hs (hnoted.trans (.of_journal rfl))
      generalize hs₁ : { s.noteAll reply.notes with
        timers := dropAllTimers i (s.noteAll reply.notes).timers } = s₁ at hended
      have hslot₁ : s₁.slot? i = some slot := hs₁ ▸ hslot'
      refine hended.accounted (endAttempt_accounted quiet hcapture hslot₁ hended.calm ?_ ending)
      intro l hl w s hslot hs
      exact attempt_accounted_of quiet discreet hslot hs fun _ _ hslot hs hreply ↦
        ih l (by omega) hslot hs hreply

theorem work_accounted (i : Nat) (hs : Calm setup.policy.timeout s.journal.remarks) :
    work setup i s = s ∨ ∃ c w, s.places[i]? = some ⟨c, .running w⟩ ∧
      (∀ text, ¬ (Slot.running w).Tells text) ∧
        Accounted setup.policy.timeout i c s (work setup i s) := by
  have hworks := work_works setup i s
  generalize work setup i s = s' at hworks
  cases hworks with
  | idle => exact .inl rfl
  | @starts c w place stage =>
    refine .inr ⟨c, w, place, fun text ↦ Slot.not_tells_running (by simp [stage]), ?_⟩
    exact attempt_accounted_of quiet discreet (State.slot?_eq_some.2 ⟨c, place⟩) hs fun _ _ ↦
      replied_accounted quiet hcapture discreet
  | @resumes c w v awaits rung interrupted place stage =>
    refine .inr ⟨c, w, place, fun text ↦ Slot.not_tells_running (by simp [stage]), ?_⟩
    have hslot : s.slot? i = some (.running w) := State.slot?_eq_some.2 ⟨c, place⟩
    have hreply := discreet.resume s.shared s.now v ⟨rung, interrupted⟩
    generalize setup.runner.resume s.shared s.now v ⟨rung, interrupted⟩ = resumed at hreply
    have hresumed : Placid setup.policy.timeout s { s with shared := resumed.1 } := .of_journal hs rfl
    have hslot' : ({ s with shared := resumed.1 } : State σ ι).slot? i = some (.running w) := hslot
    exact hresumed.accounted (replied_accounted quiet hcapture discreet hslot' hs hreply)

end Attempts

/-! ## Whole runs -/

theorem IsRoutine.harmless (h : IsRoutine n) : Harmless limit n := by
  cases h with
  | debug | info => exact .of_level nofun nofun
  | progress event => exact .progress event
  | cancelled text => exact .of_ending (a := ')') (by decide) (by decide)

/-- No mishap comes last, and of each component the log tells what its outcome says. -/
structure Candid (limit : Option Float) (s : State σ ι) : Prop where
  calm : Calm limit s.journal.remarks
  tells : s.All fun c slot ↦ ∀ text, slot.Tells text ↔ Ruined limit c text s.journal.remarks

namespace Candid

theorem of_placid (h : Placid limit s s') (htells : s'.All fun c slot ↦ ∀ text,
    slot.Tells text ↔ Ruined limit c text s.journal.remarks) : Candid limit s' where
  calm := h.calm
  tells p hp text := (htells p hp text).trans (h.ruined p.component text).symm

/-- A component that has its turn leaves the others' accounts alone. -/
theorem accounted (hs : Candid limit s) (hnodup : (s.places.map (·.component)).Nodup)
    (hplace : s.places[i]? = some ⟨c, .running w⟩) (hw : ∀ text, ¬ (Slot.running w).Tells text)
    (hturned : Turned i s s') (h : Accounted limit i c s s') : Candid limit s' where
  calm := h.calm
  tells p hp text := by
    obtain ⟨j, hj⟩ := List.mem_iff_getElem?.1 hp
    obtain ⟨f, hf⟩ := hturned.places
    by_cases hij : i = j
    · subst hij
      obtain ⟨slot, hslot, hown⟩ := h.own
      rw [hf, List.getElem?_modify_eq, hplace] at hj
      obtain rfl := Option.some.inj hj
      obtain rfl : f (.running w) = slot := by
        rw [State.slot?, hf, List.getElem?_modify_eq, hplace] at hslot
        exact Option.some.inj hslot
      have hbefore := (hs.tells _ (List.mem_of_getElem? hplace) text).not.1 (hw text)
      exact ((hown text).trans (or_iff_left hbefore)).symm
    · rw [hf, List.getElem?_modify_ne _ _ hij] at hj
      have hne : p.component ≠ c := by
        have hcomponent {j : Nat} {q : Place ι} (hq : s.places[j]? = some q) :
            (s.places.map (·.component))[j]? = some q.component := by rw [List.getElem?_map, hq]; rfl
        have hlt := (List.getElem?_eq_some_iff.1 (hcomponent hplace)).1
        intro heq
        exact hij ((List.getElem?_inj hlt hnodup).1
          ((hcomponent hplace).trans ((hcomponent hj).trans (congrArg some heq)).symm))
      exact (hs.tells p (List.mem_of_getElem? hj) text).trans (h.others p.component text hne).symm

theorem work (quiet : setup.IsQuiet) (hcapture : setup.policy.captureOutput = false)
    (discreet : setup.runner.IsDiscreet) (hs : Candid setup.policy.timeout s)
    (hnodup : (s.places.map (·.component)).Nodup) (i : Nat) :
    Candid setup.policy.timeout (work setup i s) := by
  obtain hidle | ⟨c, w, hplace, hw, haccounted⟩ := work_accounted quiet hcapture discreet i hs.calm
  · rwa [hidle]
  · exact hs.accounted hnodup hplace hw (work_turned quiet i s) haccounted

theorem conducts (quiet : setup.IsQuiet) (hs : Candid limit s) (h : Conducts setup s s')
    (hgrows : Grows IsRoutine s s') : Candid limit s' :=
  of_placid (.of_grows hs.calm (hgrows.mono fun _ ↦ IsRoutine.harmless))
    (hs.tells.conducts quiet h
      (fun _ _ _ hsteers h text ↦ hsteers.tells.trans (h text))
      fun _ _ _ _ hcloses h text ↦ hcloses.tells.trans (h text))

theorem moves (hs : Candid limit s) (h : Moves i s s') (hjournal : s'.journal = s.journal) :
    Candid limit s' :=
  of_placid (.of_journal hs.calm hjournal) (h.tells hs.tells)

theorem told (hs : Candid limit s) {t : Turn} (ht : t.place? = none) (hne : t ≠ .coordinate)
    (setup : Setup σ ι) : Candid limit (handle setup t s) := by
  have h := handle_tells setup ht hne s
  exact of_placid (.of_journal hs.calm h.journal) (hs.tells.of_places h.places)

theorem fill (quiet : setup.IsQuiet) (hs : Candid limit s) : Candid limit (fill setup s) :=
  of_placid (.of_grows hs.calm ((fill_grows s).mono fun _ ↦ IsRoutine.harmless))
    (hs.tells.fill quiet (fun _ _ _ hsteers h text ↦ hsteers.tells.trans (h text))
      fun _ reason slot h text ↦ (Slot.Closes.skips reason slot).tells.trans (h text))

section Runs

variable (quiet : setup.IsQuiet) (hcapture : setup.policy.captureOutput = false)
  (discreet : setup.runner.IsDiscreet)
include quiet hcapture discreet

theorem step (hs : Candid setup.policy.timeout s) (hnodup : (s.places.map (·.component)).Nodup) :
    Candid setup.policy.timeout (step setup s) := by
  unfold Run.step
  split
  · next t queue _ =>
    have hrest : Candid setup.policy.timeout { s with queue := queue } := ⟨hs.calm, hs.tells⟩
    cases t with
    | work i => exact hrest.work quiet hcapture discreet hnodup i
    | coordinate => exact hrest.conducts quiet (coordinate_conducts setup _) (coordinate_grows _)
    | expire i n => exact hrest.moves (expire_moves i n _) (expire_journal i n _)
    | ring i n alarm => exact hrest.moves (ring_moves i n alarm _) (ring_journal i n alarm _)
    | cancel => exact hrest.told (t := .cancel) rfl nofun setup
    | watch => exact hrest.told (t := .watch) rfl nofun setup
    | notice epoch => exact hrest.told (t := .notice epoch) rfl nofun setup
  · exact ⟨hs.calm, hs.tells⟩

theorem steps (hs : Candid setup.policy.timeout s) (hnodup : (s.places.map (·.component)).Nodup)
    (n : Nat) : Candid setup.policy.timeout (steps setup n s) := by
  refine (steps_induction
    (P := fun t ↦ Candid setup.policy.timeout t ∧ (t.places.map (·.component)).Nodup)
    (fun t _ h ↦ ⟨h.1.step quiet hcapture discreet h.2, ?_⟩) ⟨hs, hnodup⟩ n).1
  rw [step_components quiet]
  exact h.2

omit hcapture discreet in
theorem begin (cancellation : Cancellation) (now : Float) (shared : σ) (components : List String) :
    Candid setup.policy.timeout (begin setup cancellation now shared components) := by
  rw [begin_eq]
  have hremarks : Journal.remarks
      (State.opening setup cancellation now shared components).journal = [] := by
    refine Journal.remarks_of_none fun e he ↦ ?_
    rw [List.mem_singleton.1 he]
    simp [Note.IsRemark, Note.info]
  refine fill quiet ⟨?_, opening_all _ _ _ _ fun c text ↦ ?_⟩
  · intro e he
    rw [hremarks] at he
    cases he
  · rw [hremarks]
    exact iff_of_false (by simp [Slot.Tells, Slot.finish?]) not_ruined_nil

end Runs

end Candid

/-- When no output is captured, the report on a component that was tested holds diagnostics exactly if
the log tells that its last attempt ended in a mishap, and then the diagnostics name that mishap. -/
theorem execute_diagnostics (quiet : setup.IsQuiet) (hcapture : setup.policy.captureOutput = false)
    (discreet : setup.runner.IsDiscreet) (cancellation : Cancellation) (now : Float) (shared : σ)
    {components : List String} (hnodup : components.Nodup) {report : Report}
    (hreport : (execute setup cancellation now shared components).report = .ok report) {o : Outcome}
    (ho : o ∈ report.outcomes) (text : String) :
    o.status ≠ .skipped ∧ o.diagnostics = some text ↔
      (execute setup cancellation now shared components).journal.EndsInMishap setup.policy.timeout
        o.component text := by
  have hcandid := (Candid.begin quiet cancellation now shared components).steps quiet hcapture discreet
    (by rwa [begin_components cancellation now shared components quiet])
    (turnBound setup cancellation components)
  have hbears := setup.keeps_bears.steps quiet (begin_bears cancellation now shared components quiet)
    (turnBound setup cancellation components)
  rw [execute, final] at hreport ⊢
  generalize Run.steps setup _ _ = s at hcandid hbears hreport
  obtain rfl : s.report = report := by
    rw [State.ended] at hreport
    dsimp only at hreport
    split at hreport
    · cases hreport
    · exact Except.ok.inj hreport
  obtain ⟨p, hp, hslot⟩ := List.mem_filterMap.1 ho
  split at hslot
  · next o' hsettled =>
    obtain rfl := Option.some.inj hslot
    have htells := hcandid.tells p hp text
    rw [hbears p hp o' (.inl hsettled)]
    rw [hsettled] at htells
    refine Iff.trans ?_ (htells.trans endsInMishap_reverse.symm)
    simp [Slot.Tells, Slot.finish?]
  · cases hslot

end Run

end Testbed
