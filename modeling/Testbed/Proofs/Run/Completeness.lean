import Testbed.Proofs.Run.Endings

/-!
# Completeness of reports

However a scripted run goes, it ends with a report that has exactly one outcome per component.  The
components for which the runner was called come first, and what is skipped names a reason that is
true.
-/

namespace Testbed

open Run Clock

namespace Run

/-- The runner was called for a component in the course of a run. -/
def Ended.Called (before : Rehearsal.Shared) (e : Ended Rehearsal.Shared) (c : String) : Prop :=
  before.count c < e.shared.count c

variable {p : Production} {lots : Nat → Lot} {s : ScriptState} {i : Nat} {c : String}
  {shared : Rehearsal.Shared}

/-- The runner was called for the components that were started, which is all that were. -/
theorem Closed.called_iff (hs : Closed p lots s) (hearlier : ∀ c, p.earlier c = shared.count c)
    (hc : p.components[i]? = some c) : s.ended.Called shared c ↔ lots i ≠ .untouched := by
  obtain ⟨o, -, hfate⟩ := hs.settles hc
  have hcalls : (s.view i c).calls = s.shared.count c := rfl
  rw [Ended.Called, ← hearlier c, show s.ended.shared = s.shared from rfl, ← hcalls]
  generalize hlot : lots i = lot at hfate
  cases hfate with
  | untouched calls => simp [calls, Production.role]
  | course course past calls => exact iff_of_true calls nofun
  | interrupted hcancelled calls => exact iff_of_true calls nofun

theorem Closed.called_prefix (sound : p.Sound) (hs : Closed p lots s)
    (hearlier : ∀ c, p.earlier c = shared.count c)
    (hstrangers : ∀ c, c ∉ p.components → s.shared.count c = shared.count c) :
    ∃ k, ∀ c, s.ended.Called shared c ↔ c ∈ p.components.take k := by
  obtain ⟨k, -, hk⟩ := hs.started
  refine ⟨k, fun c ↦ ?_⟩
  by_cases hc : c ∈ p.components
  · obtain ⟨i, hi⟩ := List.mem_iff_getElem?.1 hc
    rw [hs.called_iff hearlier hi, Ne, hk, not_le, List.mem_take_iff_getElem]
    have hlt := (List.getElem?_eq_some_iff.1 hi).1
    constructor
    · exact fun hik ↦ ⟨i, by omega, (List.getElem?_eq_some_iff.1 hi).2⟩
    · rintro ⟨j, hj, hjc⟩
      have hij : i = j := (List.getElem?_inj hlt sound.nodup).1
        (hi.trans (List.getElem?_eq_some_iff.2 ⟨by omega, hjc⟩).symm)
      omega
  · have hnot : c ∉ p.components.take k := fun h ↦ hc (List.mem_of_mem_take h)
    have hcount := hstrangers c hc
    simp only [hnot, iff_false, Ended.Called, not_lt]
    exact hcount.le

/-- What is skipped names a true reason. -/
theorem Closed.skip_reason (sound : p.Sound) (hs : Closed p lots s)
    (hearlier : ∀ c, p.earlier c = shared.count c) {o : Outcome}
    (ho : s.report.outcomes[i]? = some o) (hskipped : o.status = .skipped) :
    o.diagnostics = some skippedFailFast ∧ p.policy.failFast = true ∧ s.cancelled = false ∧
        ¬ s.ended.Called shared o.component ∧
        (∃ j < i, ∃ e, s.report.outcomes[j]? = some e ∧ (e.status = .failed ∨ e.status = .errored)) ∨
      o.diagnostics = some interruptedCancelled ∧ s.cancelled = true ∧
        s.ended.Called shared o.component ∨
      o.diagnostics = some skippedCancelled ∧ s.cancelled = true ∧
        ¬ s.ended.Called shared o.component := by
  obtain ⟨c, hc⟩ := hs.exists_component ho
  have hfate := hs.fate hc ho
  have hcomponent : o.component = c := hfate.component sound.orderly
  have hcalled := hs.called_iff hearlier hc
  rw [hcomponent]
  generalize hlot : lots i = lot at hfate hcalled
  cases hfate with
  | untouched calls told =>
    have huncalled : ¬ s.ended.Called shared c := by simpa using hcalled
    cases hcancelled : s.cancelled with
    | true => exact .inr (.inr ⟨rfl, rfl, huncalled⟩)
    | false =>
      refine .inl ⟨rfl, ?_⟩
      have hlt := (List.getElem?_eq_some_iff.1 hc).1
      have hhalted := (hs.untouched ⟨i, hlt, hlot⟩).resolve_left (by simp [hcancelled])
      obtain ⟨hfast, j, e, hj, he⟩ := hs.halted hhalted
      refine ⟨hfast, rfl, huncalled, j, ?_, e, hs.outcomes_getElem?.2 hj, by simpa [halting] using he⟩
      -- a component that failed was started, and what was started comes first
      obtain ⟨k, -, hk⟩ := hs.started
      have hki := (hk i).1 hlot
      by_contra hle
      have hjlot : lots j = .untouched := (hk j).2 (by omega)
      obtain ⟨c', hc'⟩ := hs.toScene.exists_component hj
      have hjfate := hs.fate hc' (hs.outcomes_getElem?.2 hj)
      rw [hjlot] at hjfate
      cases hjfate
      cases he
  | course course =>
    have hstatus := Role.course_status sound.orderly course
    rw [hskipped] at hstatus
    simp at hstatus
  | interrupted hcancelled calls => exact .inr (.inl ⟨rfl, hcancelled, by simpa using hcalled⟩)

/-- Without a halt and a cancellation everything is tested. -/
theorem Closed.tested (hs : Closed p lots s) (hcancelled : s.cancelled = false)
    (hfast : p.policy.failFast = false) (hc : p.components[i]? = some c) :
    ∃ τ o, lots i = .started τ ∧ (p.role c).course τ = ((p.role c).course τ |>.1, .outcome o) ∧
      s.report.outcomes[i]? = some o := by
  obtain ⟨o, ho⟩ := hs.exists_outcome hc
  have hfate := hs.fate hc ho
  have hlt := (List.getElem?_eq_some_iff.1 hc).1
  cases hlot : lots i with
  | untouched =>
    have hhalted := (hs.untouched ⟨i, hlt, hlot⟩).resolve_left (by simp [hcancelled])
    rw [(hs.halted hhalted).1] at hfast
    cases hfast
  | started τ =>
    rw [hlot] at hfate
    cases hfate with
    | course course => exact ⟨τ, o, rfl, Prod.ext rfl course, ho⟩
    | interrupted h => simp [hcancelled] at h

section Execution

variable {registry : Registry} {components : List String} {script : Script} {policy : Policy}
  {cancellation : Cancellation} {now : Float}

/-- A run of a usable registry ends with a report that has one outcome per component, in order; the
runner was called for the components of a prefix; and the reasons for skips are true. -/
theorem execute_report_complete (hlist : registry.list = .ok components)
    (hparallelism : 1 ≤ policy.parallelism) (orderly : script.Orderly) (hnow : IsInstant now)
    (hdelays : ∀ delay ∈ cancellation.delays, 0 ≤ delay) :
    let ended := execute (script.setup policy) cancellation now shared components
    let cancelled := (final (script.setup policy) cancellation now shared components).cancelled
    ∃ report : Report, ended.report = .ok report ∧
      report.outcomes.map (·.component) = components ∧ components.Nodup ∧
      (∃ k, ∀ c, ended.Called shared c ↔ c ∈ components.take k) ∧
      (cancellation = .never → cancelled = false) ∧
      (policy.failFast = false → cancelled = false →
        ∀ o ∈ report.outcomes, o.status ≠ .skipped ∧ ended.Called shared o.component) ∧
      ∀ (i : Nat) (o : Outcome), report.outcomes[i]? = some o → o.status = .skipped →
        o.diagnostics = some skippedFailFast ∧ policy.failFast = true ∧ cancelled = false ∧
            ¬ ended.Called shared o.component ∧
            (∃ j < i, ∃ e, report.outcomes[j]? = some e ∧ (e.status = .failed ∨ e.status = .errored)) ∨
          o.diagnostics = some interruptedCancelled ∧ cancelled = true ∧
            ended.Called shared o.component ∨
          o.diagnostics = some skippedCancelled ∧ cancelled = true ∧
            ¬ ended.Called shared o.component := by
  have sound := Production.sound_of shared hlist orderly hparallelism
  obtain ⟨lots, hclosed, hreport⟩ := final_closed shared hlist hparallelism orderly hnow hdelays
  refine ⟨_, hreport, hclosed.outcomes_components sound, sound.nodup, ?_, ?_, ?_, ?_⟩
  · exact hclosed.called_prefix sound (fun _ ↦ rfl)
      fun c hc ↦ final_stranger hlist hparallelism orderly hnow hdelays hc
  · rintro rfl
    exact final_never (Script.setup_isQuiet _ _) _ _ _
  · intro hfast hcancelled o ho
    obtain ⟨i, hi⟩ := List.mem_iff_getElem?.1 ho
    obtain ⟨c, hc⟩ := hclosed.exists_component hi
    obtain ⟨τ, o', hlot, hcourse, ho'⟩ := hclosed.tested hcancelled hfast hc
    obtain rfl := Option.some_inj.1 (hi.symm.trans ho')
    have hcourse := (Prod.ext_iff.1 hcourse).2
    have hcomponent : o.component = c := (hclosed.fate hc hi).component orderly
    refine ⟨fun hskipped ↦ ?_, ?_⟩
    · have hstatus := Role.course_status (r := (Production.of script policy shared components).role c)
        orderly hcourse
      rw [hskipped] at hstatus
      simp at hstatus
    · rw [hcomponent]
      refine (hclosed.called_iff (fun _ ↦ rfl) hc).2 ?_
      rw [hlot]
      nofun
  · exact fun i o ↦ hclosed.skip_reason sound fun _ ↦ rfl

/-- A first component that fails, and a second one that passes. -/
def Script.failing : Script where
  entries component := if component = "alpha" then [.answered { status := .failed }] else []
  delay _ := 1.0

theorem Script.failing_orderly : Script.failing.Orderly where
  delay _ := show (0 : Float) ≤ 1.0 by decide +kernel
  answered component ending h := by
    simp only [Script.failing] at h
    split at h
    · exact .inl ⟨_, List.mem_singleton.1 h, by simp⟩
    · cases h

theorem execute_report_complete_failing :
    (⟨["alpha", "beta"]⟩ : Registry).list = .ok ["alpha", "beta"] ∧
      ∃ report : Report, (execute (Script.failing.setup { failFast := true }) (.after [0.5]) 0.0 {}
        ["alpha", "beta"]).report = .ok report ∧
          report.outcomes.map (·.component) = ["alpha", "beta"] :=
  have hlist : (⟨["alpha", "beta"]⟩ : Registry).list = .ok ["alpha", "beta"] := by decide +kernel
  have ⟨report, hreport, houtcomes, _⟩ := execute_report_complete hlist (by decide)
    Script.failing_orderly (by decide +kernel) (by decide +kernel)
  ⟨hlist, report, hreport, houtcomes⟩

end Execution

end Run

end Testbed
